import Mathlib.Algebra.Ring.Int.Defs
import TapeMachine.Compiled
import TapeMachine.Proofs.Tape.Window

namespace TapeMachine

namespace Reserved

/-- The positions whose addresses do not wrap around. -/
def Near (p : Position) : Prop := -2 ^ 61 ≤ p.toInt ∧ p.toInt < 2 ^ 61

instance (p : Position) : Decidable (Near p) := inferInstanceAs (Decidable (_ ∧ _))

theorem addressOf_add (p q : Position) : addressOf (p + q) = addressOf p + q * 4 := Int64.add_mul

theorem toInt_addressOf {p : Position} (h : Near p) : (addressOf p).toInt = p.toInt * 4 := by
  obtain ⟨low, high⟩ := h
  have four : (4 : Int64).toInt = 4 := rfl
  rw [addressOf, Int64.toInt_mul, four]
  apply Int.bmod_eq_of_le <;> omega

theorem positionOf_addressOf {p : Position} (h : Near p) : positionOf (addressOf p) = p := by
  rw [positionOf, toInt_addressOf h, Int.mul_fdiv_cancel _ (by decide), Int64.ofInt_toInt]

theorem cellAt?_addressOf (t : Reserved) {p : Position} (h : Near p) :
    t.cellAt? (addressOf p) = t.index? p := by
  have aligned : (addressOf p).toInt % 4 = 0 := by
    rw [toInt_addressOf h]
    exact Int.mul_emod_left p.toInt 4
  rw [cellAt?, if_pos aligned, positionOf_addressOf h]

/-- A reservation that was had from the system, with any contents. -/
def Granted (t : Reserved) : Prop :=
  ∃ memory size fresh, allocate memory size = .ok fresh ∧ t.capacity = fresh.capacity

theorem Granted.capacity_lt {t : Reserved} (granted : t.Granted) : t.capacity < 2 ^ 61 := by
  obtain ⟨memory, size, fresh, allocated, same⟩ := granted
  rw [same]
  exact capacity_lt_of_allocated allocated

theorem Granted.near {t : Reserved} (granted : t.Granted) {p : Position} {i : Fin t.capacity}
    (h : t.index? p = some i) : Near p := by
  have small := granted.capacity_lt
  unfold index? at h
  split at h
  next inside =>
    obtain ⟨low, high⟩ := inside
    unfold origin at low high
    constructor <;> omega
  next => simp at h

theorem Granted.of_capacity {t u : Reserved} (h : t.Granted) (same : u.capacity = t.capacity) :
    u.Granted := by
  obtain ⟨memory, size, fresh, allocated, hcapacity⟩ := h
  exact ⟨memory, size, fresh, allocated, same.trans hcapacity⟩

theorem toInt_positionOf (d : Displacement) : (positionOf d).toInt = d.toInt / 4 := by
  have low := d.le_toInt
  have high := d.toInt_lt
  rw [positionOf, Int.fdiv_eq_ediv_of_nonneg _ (by decide)]
  apply Int64.toInt_ofInt_of_le <;> omega

theorem toInt_positionOf_eq_iff (d : Displacement) (p : Int) :
    (positionOf d).toInt = p ↔ 4 * p ≤ d.toInt ∧ d.toInt < 4 * p + 4 := by
  rw [toInt_positionOf]
  omega

theorem near_positionOf (d : Displacement) : Near (positionOf d) := by
  have quotient := toInt_positionOf d
  have low := d.le_toInt
  have high := d.toInt_lt
  constructor <;> omega

theorem positionOf_le_positionOf {d e : Displacement} (h : d ≤ e) :
    positionOf d ≤ positionOf e := by
  rw [Int64.le_iff_toInt_le] at h ⊢
  rw [toInt_positionOf, toInt_positionOf]
  exact Int.ediv_le_ediv (by decide) h

/-- Division that rounds toward zero would go wrong for just the addresses left of the origin that
are no address of a first byte. -/
theorem positionOf_eq_div_iff (d : Displacement) :
    positionOf d = d / 4 ↔ 0 ≤ d ∨ d.toInt % 4 = 0 := by
  have low := d.le_toInt
  have high := d.toInt_lt
  have four : (4 : Int64).toInt = 4 := rfl
  have zero : (0 : Int64).toInt = 0 := rfl
  have rounded : d.toInt.tdiv 4 = d.toInt / 4 + if 0 ≤ d.toInt ∨ 4 ∣ d.toInt then 0 else 1 :=
    Int.tdiv_eq_ediv
  have truncated : (d / 4).toInt = d.toInt.tdiv 4 := by
    rw [Int64.toInt_div, four, rounded]
    apply Int.bmod_eq_of_le <;> split <;> omega
  rw [← Int64.toInt_inj, truncated, rounded, toInt_positionOf, Int64.le_iff_toInt_le, zero]
  split <;> omega

theorem index?_positionOf_eq_some_iff (t : Reserved) (d : Displacement) (i : Fin t.capacity) :
    t.index? (positionOf d) = some i ↔
      4 * (i : Int) ≤ 4 * t.origin + d.toInt ∧ 4 * t.origin + d.toInt < 4 * i + 4 := by
  have quotient := toInt_positionOf d
  have inside := i.isLt
  unfold index?
  split
  next h =>
    rw [Option.some.injEq, Fin.ext_iff]
    dsimp only
    omega
  next h =>
    simp only [reduceCtorEq, false_iff]
    omega

end Reserved

namespace Mapping

variable {m : Mapping}

/-- A mapping that was had from the system, with any contents. -/
def Granted (m : Mapping) : Prop :=
  ∃ memory size fresh, allocate memory size = .ok fresh ∧ m.base = fresh.base ∧
    m.tape.capacity = fresh.tape.capacity

theorem Granted.bounds (granted : m.Granted) :
    m.base.toNat < 2 ^ 63 ∧ m.base.toNat + 4 * m.tape.capacity ≤ 2 ^ 63 := by
  obtain ⟨memory, size, fresh, allocated, base, capacity⟩ := granted
  obtain ⟨positive, filled, placed, tape⟩ := of_allocated allocated
  have cells : fresh.tape.capacity = size.toNat / 4 := congrArg Reserved.capacity tape
  rw [base, capacity, cells]
  omega

theorem Granted.reservation (granted : m.Granted) : m.tape.Granted := by
  obtain ⟨memory, size, fresh, allocated, -, capacity⟩ := granted
  exact ⟨memory, size, fresh.tape, congrArg (Except.map Mapping.tape) allocated, capacity⟩

theorem Granted.toNat_originPtr (granted : m.Granted) :
    m.originPtr.toNat = m.base.toNat + 4 * (m.tape.capacity / 2) ∧ m.originPtr.toNat < 2 ^ 63 := by
  obtain ⟨low, high⟩ := granted.bounds
  have small : m.base.toNat + 4 * (m.tape.capacity / 2) < 2 ^ 63 := by omega
  have value : m.originPtr.toNat = m.base.toNat + 4 * (m.tape.capacity / 2) := by
    rw [originPtr, UInt64.toNat_add, UInt64.toNat_ofNat', Nat.add_mod_mod]
    exact Nat.mod_eq_of_lt (Nat.lt_trans small (by decide))
  exact ⟨value, by omega⟩

theorem toInt_toInt64 (a : Pointer) :
    a.toInt64.toInt = if 2 * a.toNat < 2 ^ 64 then (a.toNat : Int) else a.toNat - 2 ^ 64 :=
  BitVec.toInt_eq_toNat_cond a.toBitVec

theorem Granted.toInt_originPtr (granted : m.Granted) :
    m.originPtr.toInt64.toInt = m.originPtr.toNat := by
  obtain ⟨-, high⟩ := granted.toNat_originPtr
  rw [toInt_toInt64, if_pos (by omega)]

@[simp] theorem displacementOf_addressAt (m : Mapping) (d : Displacement) :
    m.displacementOf (m.addressAt d) = d := by
  rw [displacementOf, addressAt, UInt64.toInt64_add, d.toInt64_toUInt64, Int64.add_comm,
    Int64.add_sub_cancel]

theorem addressAt_displacementOf (m : Mapping) (a : Pointer) :
    m.addressAt (m.displacementOf a) = a := by
  have cancel (x y : UInt64) : x + (y - x) = y := by grind
  rw [addressAt, displacementOf, Int64.toUInt64_sub, UInt64.toUInt64_toInt64,
    UInt64.toUInt64_toInt64, cancel]

theorem toInt_addressAt (granted : m.Granted) (d : Displacement) :
    (m.addressAt d).toInt64.toInt =
      if m.originPtr.toNat + d.toInt < 2 ^ 63 then m.originPtr.toNat + d.toInt
      else m.originPtr.toNat + d.toInt - 2 ^ 64 := by
  obtain ⟨-, small⟩ := granted.toNat_originPtr
  have low := d.le_toInt
  have high := d.toInt_lt
  rw [addressAt, UInt64.toInt64_add, d.toInt64_toUInt64, Int64.toInt_add, granted.toInt_originPtr]
  split
  next => apply Int.bmod_eq_of_le <;> omega
  next past =>
    rw [← Int.sub_bmod_right]
    apply Int.bmod_eq_of_le <;> omega

/-- The position is that of the displacement, if this can be told from the two signed addresses. -/
theorem positionOf_addressAt (granted : m.Granted) (d : Displacement) :
    m.positionOf (m.addressAt d) =
      if m.originPtr.toNat + d.toInt < 2 ^ 63 then .ok (Reserved.positionOf d)
      else .error .subtractOverflow := by
  have low := d.le_toInt
  have high := d.toInt_lt
  have least : Int64.minValue.toInt = -2 ^ 63 := rfl
  have greatest : Int64.maxValue.toInt = 2 ^ 63 - 1 := rfl
  have distance : (m.addressAt d).toInt64 - m.originPtr.toInt64 = d := m.displacementOf_addressAt d
  rw [positionOf, checkedSub, toInt_addressAt granted, granted.toInt_originPtr, distance]
  by_cases near : m.originPtr.toNat + d.toInt < 2 ^ 63
  · rw [if_pos near, if_pos near, if_pos (by omega)]
    rfl
  · rw [if_neg near, if_neg near, if_neg (by omega)]
    rfl

theorem positionOf_eq_ok_iff (granted : m.Granted) {d : Displacement} {p : Position} :
    m.positionOf (m.addressAt d) = .ok p ↔
      m.originPtr.toNat + d.toInt < 2 ^ 63 ∧ Reserved.positionOf d = p := by
  rw [positionOf_addressAt granted]
  split
  next near =>
    rw [Except.ok.injEq]
    exact ⟨fun same => ⟨near, same⟩, And.right⟩
  next far =>
    simp only [reduceCtorEq, false_iff]
    exact fun h => far h.1

theorem Granted.of_tape (granted : m.Granted) {t : Reserved} (same : t.capacity = m.tape.capacity) :
    ({ m with tape := t } : Mapping).Granted := by
  obtain ⟨memory, size, fresh, allocated, base, capacity⟩ := granted
  exact ⟨memory, size, fresh, allocated, base, same.trans capacity⟩

/-- Linked code does to a mapping what the compiled automaton does to the reservation alone, wherever
this lies, unless it halts so far from the origin cell that the distance does not fit. -/
theorem run_link (granted : m.Granted) (f : Compiled) (head : Position)
    (keeps : (f m.tape (Reserved.addressOf head)).2.capacity = m.tape.capacity)
    (near : ∀ d, (f m.tape (Reserved.addressOf head)).1 = .ok d →
      m.originPtr.toNat + d.toInt < 2 ^ 63) :
    m.run f.link head =
      ((f.automaton m.tape head).1, { m with tape := (f.automaton m.tape head).2 }) := by
  rw [run, Compiled.link, cellPtr, displacementOf_addressAt, Compiled.automaton]
  rcases ran : f m.tape (Reserved.addressOf head) with ⟨e | d, t⟩
  · rfl
  · rw [ran] at keeps near
    have same : ({ m with tape := t } : Mapping).originPtr = m.originPtr := by
      rw [originPtr, originPtr, Reserved.origin, Reserved.origin, keeps]
    have found := positionOf_addressAt (granted.of_tape keeps) d
    rw [same, if_pos (near d rfl)] at found
    simp only [Except.map, found, Except.mapError]

/-- A cell's address leads back to it if it does not wrap around and can be told from that of the
origin cell, and only then. -/
theorem positionOf_cellPtr_eq_iff (granted : m.Granted) (p : Position) :
    m.positionOf (m.cellPtr p) = .ok p ↔
      Reserved.Near p ∧ m.originPtr.toNat + 4 * p.toInt < 2 ^ 63 := by
  rw [cellPtr, positionOf_eq_ok_iff granted]
  constructor
  · rintro ⟨near, same⟩
    have close : Reserved.Near p := by
      rw [← same]
      exact Reserved.near_positionOf _
    rw [Reserved.toInt_addressOf close] at near
    exact ⟨close, by omega⟩
  · rintro ⟨close, near⟩
    rw [Reserved.toInt_addressOf close]
    exact ⟨by omega, Reserved.positionOf_addressOf close⟩

theorem exists_addressAt (m : Mapping) (a : Pointer) : ∃ d, a = m.addressAt d :=
  ⟨m.displacementOf a, (m.addressAt_displacementOf a).symm⟩

theorem cell_found_iff (granted : m.Granted) (a : Pointer) (i : Fin m.tape.capacity) :
    (∃ p, m.positionOf a = .ok p ∧ m.tape.index? p = some i) ↔
      m.base.toNat + 4 * i ≤ a.toNat ∧ a.toNat < m.base.toNat + 4 * i + 4 := by
  obtain ⟨d, rfl⟩ := m.exists_addressAt a
  have inside := i.isLt
  have low := d.le_toInt
  have high := d.toInt_lt
  have middle : m.tape.origin = m.tape.capacity / 2 := rfl
  have bound : (m.addressAt d).toNat < 2 ^ 64 := (m.addressAt d).toNat_lt
  have value := toInt_addressAt granted d
  rw [toInt_toInt64] at value
  obtain ⟨below, fits⟩ := granted.bounds
  obtain ⟨origin, lower⟩ := granted.toNat_originPtr
  constructor
  · rintro ⟨p, found, cell⟩
    obtain ⟨near, rfl⟩ := (positionOf_eq_ok_iff granted).mp found
    rw [Reserved.index?_positionOf_eq_some_iff] at cell
    rw [if_pos near] at value
    split at value <;> omega
  · rintro ⟨first, last⟩
    -- the last byte of the last cell still lies in the lower half
    rw [if_pos (by omega)] at value
    have near : m.originPtr.toNat + d.toInt < 2 ^ 63 := by
      split at value <;> omega
    rw [if_pos near] at value
    refine ⟨_, (positionOf_eq_ok_iff granted).mpr ⟨near, rfl⟩, ?_⟩
    rw [Reserved.index?_positionOf_eq_some_iff]
    omega

theorem le_of_positionOf (granted : m.Granted) {a b : Pointer} {p q : Position}
    (ha : m.positionOf a = .ok p) (hb : m.positionOf b = .ok q) (le : a.toInt64 ≤ b.toInt64) :
    p ≤ q := by
  obtain ⟨d, rfl⟩ := m.exists_addressAt a
  obtain ⟨e, rfl⟩ := m.exists_addressAt b
  obtain ⟨neara, rfl⟩ := (positionOf_eq_ok_iff granted).mp ha
  obtain ⟨nearb, rfl⟩ := (positionOf_eq_ok_iff granted).mp hb
  rw [Int64.le_iff_toInt_le, toInt_addressAt granted, toInt_addressAt granted, if_pos neara,
    if_pos nearb] at le
  apply Reserved.positionOf_le_positionOf
  rw [Int64.le_iff_toInt_le]
  omega

/-- The position of an address is that of the one cell that contains it, wherever the reservation
lies. So each cell is found by its four bytes and by no other address, a cell's address leads back to
it, and positions never go down as addresses go up. Only an address so far to the right that its
signed number wraps around has no position. -/
theorem positionOf_containing_cell (granted : m.Granted) :
    m.originPtr.toNat = m.base.toNat + 4 * (m.tape.capacity / 2) ∧
    (∀ d : Displacement, m.originPtr.toNat + d.toInt < 2 ^ 63 →
      ∃ p, m.positionOf (m.addressAt d) = .ok p ∧
        ∀ q : Int, p.toInt = q ↔ 4 * q ≤ d.toInt ∧ d.toInt < 4 * q + 4) ∧
    (∀ d : Displacement, 2 ^ 63 ≤ m.originPtr.toNat + d.toInt →
      m.positionOf (m.addressAt d) = .error .subtractOverflow) ∧
    (∀ (a : Pointer) (i : Fin m.tape.capacity),
      (∃ p, m.positionOf a = .ok p ∧ m.tape.index? p = some i) ↔
        m.base.toNat + 4 * i ≤ a.toNat ∧ a.toNat < m.base.toNat + 4 * i + 4) ∧
    (∀ p, m.positionOf (m.cellPtr p) = .ok p ↔
      Reserved.Near p ∧ m.originPtr.toNat + 4 * p.toInt < 2 ^ 63) ∧
    ∀ a b p q, m.positionOf a = .ok p → m.positionOf b = .ok q → a.toInt64 ≤ b.toInt64 → p ≤ q := by
  obtain ⟨origin, -⟩ := granted.toNat_originPtr
  refine ⟨origin, fun d near => ?_, fun d far => ?_, cell_found_iff granted,
    positionOf_cellPtr_eq_iff granted, fun a b p q => le_of_positionOf granted⟩
  · exact ⟨Reserved.positionOf d, (positionOf_eq_ok_iff granted).mpr ⟨near, rfl⟩,
      Reserved.toInt_positionOf_eq_iff d⟩
  · rw [positionOf_addressAt granted, if_neg (by omega)]

/-- Five cells and three bytes left over, with an address left of the origin cell that is no multiple
of four. -/
theorem positionOf_containing_cell_left_of_origin :
    let m : Mapping := { base := 0x7f0000000000, tape := { capacity := 5 } }
    m.Granted ∧ m.originPtr = 0x7f0000000008 ∧
    (∃ p, m.positionOf (m.addressAt (-3)) = .ok p ∧ p.toInt = -1) ∧
    (∃ p, m.positionOf 0x7f0000000005 = .ok p ∧ m.tape.index? p = some 1) ∧
    m.positionOf (m.cellPtr (-3)) = .ok (-3) := by
  intro m
  have granted : m.Granted := ⟨.ample, 23, m, rfl, rfl, rfl⟩
  obtain ⟨-, cells, -, found, back, -⟩ := positionOf_containing_cell granted
  obtain ⟨p, position, cell⟩ := cells (-3) (by decide)
  refine ⟨granted, by decide, ⟨p, position, (cell (-1)).mpr (by decide)⟩,
    (found 0x7f0000000005 1).mpr (by decide), (back (-3)).mpr (by decide)⟩

/-- The last cell pointer before the displacements wrap around is too far from any origin cell. -/
theorem positionOf_far_cell_overflows :
    let m : Mapping := { base := 0x7f0000000000, tape := { capacity := 16 } }
    let p : Position := 2305843009213693951
    m.Granted ∧ Reserved.Near p ∧ (Reserved.addressOf p).toInt = 4 * p.toInt ∧
    m.positionOf (m.cellPtr p) = .error .subtractOverflow := by
  intro m p
  have granted : m.Granted := ⟨.ample, 64, m, rfl, rfl, rfl⟩
  refine ⟨granted, by decide, by decide, ?_⟩
  rw [cellPtr, positionOf_addressAt granted]
  exact if_neg (by decide)

end Mapping

end TapeMachine
