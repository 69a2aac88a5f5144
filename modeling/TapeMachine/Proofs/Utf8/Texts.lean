import TapeMachine.Proofs.Utf8.Occurrences

namespace TapeMachine.Utf8

theorem encodeChar_of_ascii {c : Char} (ascii : c.toNat < 0x80) :
    String.utf8EncodeChar c = [c.val.toUInt8] := by
  apply String.utf8EncodeChar_eq_singleton
  rw [Char.utf8Size_eq_one_iff, UInt32.le_iff_toNat_le]
  exact Nat.le_of_lt_succ ascii

theorem high_of_mem_encodeChar {c : Char} (high : 0x80 ≤ c.toNat) :
    ∀ b ∈ String.utf8EncodeChar c, 0x80 ≤ b.toNat := by
  intro b hb
  obtain ⟨lead, l, hl, announced⟩ := Lead.exists_announces c
  have he := Lead.encode_of_announces hl announced
  obtain ⟨payload, -⟩ := announced
  rw [he] at hb
  rcases List.mem_cons.mp hb with rfl | hb
  · rcases Lead.cases hl with ⟨lt, rfl⟩ | ⟨ge, -⟩ | ⟨ge, -⟩ | ⟨ge, -⟩
    · simp only [Nat.pow_zero, Nat.div_one] at payload
      omega
    · omega
    · omega
    · omega
  · have low := (continuation_of_mem_tail hb).1
    rwa [UInt8.le_iff_toNat_le] at low

theorem toUInt8_inj_of_ascii {c d : Char} (hc : c.toNat < 0x80) (hd : d.toNat < 0x80) :
    c.val.toUInt8 = d.val.toUInt8 ↔ c = d := by
  have value (x : Char) (hx : x.toNat < 0x80) : x.val.toUInt8.toNat = x.toNat := by
    rw [UInt32.toNat_toUInt8]
    change x.toNat % 2 ^ 8 = x.toNat
    omega
  rw [← UInt8.toNat_inj, value c hc, value d hd]
  exact Char.toNat_inj

theorem count_encodeChar {d : Char} (ascii : d.toNat < 0x80) (c : Char) :
    (String.utf8EncodeChar c).count d.val.toUInt8 = [c].count d := by
  by_cases hc : c.toNat < 0x80
  · rw [encodeChar_of_ascii hc, List.count_singleton, List.count_singleton]
    simp only [beq_iff_eq, toUInt8_inj_of_ascii hc ascii]
  · have other : c ≠ d := by
      rintro rfl
      exact hc ascii
    have absent : d.val.toUInt8 ∉ String.utf8EncodeChar c := by
      intro found
      have high := high_of_mem_encodeChar (Nat.le_of_not_lt hc) _ found
      rw [UInt32.toNat_toUInt8] at high
      change 0x80 ≤ d.toNat % 2 ^ 8 at high
      omega
    rw [List.count_eq_zero_of_not_mem absent, List.count_singleton, if_neg]
    simpa using other

theorem encode_cons (c : Char) (cs : List Char) :
    encode (c :: cs) = String.utf8EncodeChar c ++ encode cs := List.flatMap_cons

theorem count_encode {d : Char} (ascii : d.toNat < 0x80) (cs : List Char) :
    (encode cs).count d.val.toUInt8 = cs.count d := by
  induction cs with
  | nil => rfl
  | cons c cs ih =>
    rw [encode_cons, List.count_append, count_encodeChar ascii, ih, ← List.count_append]
    rfl

theorem encode_of_ascii {cs : List Char} (ascii : ∀ c ∈ cs, c.toNat < 0x80) :
    encode cs = cs.map fun c => c.val.toUInt8 := by
  induction cs with
  | nil => rfl
  | cons c cs ih =>
    rw [encode_cons, encodeChar_of_ascii (ascii c List.mem_cons_self),
      ih fun d hd => ascii d (List.mem_cons_of_mem c hd)]
    rfl

theorem ascii_of_mem_encode {cs : List Char} (ascii : ∀ c ∈ cs, c.toNat < 0x80) :
    ∀ b ∈ encode cs, b < 0x80 := by
  intro b hb
  rw [encode_of_ascii ascii] at hb
  obtain ⟨c, hc, rfl⟩ := List.mem_map.mp hb
  have low := ascii c hc
  rw [UInt8.lt_iff_toNat_lt, UInt32.toNat_toUInt8]
  change c.toNat % 2 ^ 8 < 0x80
  omega

theorem map_ofUInt8_encode {cs : List Char} (ascii : ∀ c ∈ cs, c.toNat < 0x80) :
    (encode cs).map Char.ofUInt8 = cs := by
  rw [encode_of_ascii ascii, List.map_map]
  refine (List.map_congr_left fun c hc => ?_).trans (List.map_id cs)
  have low := ascii c hc
  apply Char.toNat_inj.mp
  change c.val.toUInt8.toUInt32.toNat = c.toNat
  rw [UInt8.toNat_toUInt32, UInt32.toNat_toUInt8]
  change c.toNat % 2 ^ 8 = c.toNat
  omega

theorem front_encode (c : Char) (more : List UInt8) :
    front (String.utf8EncodeChar c ++ more) = .scalar c c.utf8Size :=
  front_eq_scalar_iff.mpr ⟨rfl, List.prefix_append _ _⟩

theorem decodeLossy_append (c : Char) (more : List UInt8) :
    decodeLossy (String.utf8EncodeChar c ++ more) = c :: decodeLossy more := by
  obtain ⟨b, bytes, he, -⟩ := exists_encode_eq_cons c
  have size : c.utf8Size = bytes.length + 1 := by
    rw [← String.length_utf8EncodeChar, he, List.length_cons]
  have hf := front_encode c more
  rw [he, List.cons_append] at hf ⊢
  rw [decodeLossy, hf]
  simp only
  rw [size, Nat.add_sub_cancel, List.drop_left]

theorem decodeLossy_encode (cs : List Char) : decodeLossy (encode cs) = cs := by
  induction cs with
  | nil => simp [encode, decodeLossy]
  | cons c cs ih =>
    rw [encode, List.flatMap_cons, decodeLossy_append]
    exact congrArg (c :: ·) ih

theorem lossyText_bytesOf (s : String) : lossyText (bytesOf s) = s := by
  rw [lossyText, bytesOf, decodeLossy_encode, String.ofList_toList]

theorem eq_null_of_zero_mem {c : Char} (h : 0 ∈ String.utf8EncodeChar c) : c = '\x00' := by
  obtain ⟨b, more, he, -⟩ := exists_encode_eq_cons c
  have lead : b = 0 := by
    rw [he] at h
    rcases List.mem_cons.mp h with rfl | h
    · rfl
    · have low : (0x80 : UInt8) ≤ 0 := (continuation_of_mem_encode (by rwa [he])).1
      exact absurd low (by decide)
  have null : front (String.utf8EncodeChar c) = .scalar '\x00' 1 := by
    rw [he, lead]
    exact front_encode '\x00' more
  have itself := front_encode c []
  rw [List.append_nil, null] at itself
  exact (Front.scalar.inj itself).1.symm

theorem zero_not_mem_encode {cs : List Char} (h : '\x00' ∉ cs) : 0 ∉ encode cs := by
  intro hz
  obtain ⟨c, hc, hz⟩ := List.mem_flatMap.mp hz
  exact h (eq_null_of_zero_mem hz ▸ hc)

end TapeMachine.Utf8
