import LmdbJni.Library.ByteOrder

/-!
Encodings that keep the order. Strings are compared symbol by symbol, a proper prefix first.
`Embeds` says that an encoding decides a comparison before anything that follows it is looked at,
so encodings of this kind can be put one behind another.
-/

namespace OrderCode

variable {α β : Type} [Ord β]

def Embeds (encode : α → List β) (order : α → α → Ordering) (first second : α) : Prop :=
  ∀ firstRest secondRest,
    compare (encode first ++ firstRest) (encode second ++ secondRest) =
      (order first second).then (compare firstRest secondRest)

theorem compare_append {first second : List β} (same : first.length = second.length)
    (firstRest secondRest : List β) :
    compare (first ++ firstRest) (second ++ secondRest) =
      (compare first second).then (compare firstRest secondRest) := by
  induction first generalizing second with
  | nil =>
      cases second with
      | nil => rfl
      | cons symbol rest => cases same
  | cons symbol rest ih =>
      cases second with
      | nil => cases same
      | cons other others =>
          simp only [List.length_cons, Nat.add_right_cancel_iff] at same
          simp only [List.cons_append, List.compare_cons_cons, ih same, Ordering.then_assoc]

/-- Encodings of one length. -/
theorem embeds_of_length {encode : α → List β} {order : α → α → Ordering} {first second : α}
    (same : (encode first).length = (encode second).length)
    (agree : compare (encode first) (encode second) = order first second) :
    Embeds encode order first second := by
  intro firstRest secondRest
  rw [compare_append same, agree]

/-- Encodings one behind another compare as the tuples do, first field first. -/
theorem compare_flatMap {encode : α → List β} {order : α → α → Ordering} {first second : List α}
    (embeds : List.Forall₂ (Embeds encode order) first second) :
    compare (first.flatMap encode) (second.flatMap encode) = first.compareLex order second := by
  induction embeds with
  | nil => rfl
  | cons head tail ih =>
      rw [List.flatMap_cons, List.flatMap_cons, head, ih, List.compareLex_cons_cons]

/-- Strings closed by a least symbol that does not occur in them. -/
theorem compare_terminated [Std.LawfulEqOrd β] {stop : β}
    (least : ∀ symbol, symbol ≠ stop → compare stop symbol = .lt ∧ compare symbol stop = .gt)
    {first second : List β} (firstFree : stop ∉ first) (secondFree : stop ∉ second)
    (firstRest secondRest : List β) :
    compare (first ++ stop :: firstRest) (second ++ stop :: secondRest) =
      (compare first second).then (compare firstRest secondRest) := by
  induction first generalizing second with
  | nil =>
      cases second with
      | nil => simp [List.compare_cons_cons]
      | cons symbol rest =>
          have above := (least symbol fun same => secondFree (by simp [same])).1
          simp [List.compare_cons_cons, above]
  | cons symbol rest ih =>
      cases second with
      | nil =>
          have above := (least symbol fun same => firstFree (by simp [same])).2
          simp [List.compare_cons_cons, above]
      | cons other others =>
          simp only [List.mem_cons, not_or] at firstFree secondFree
          simp only [List.cons_append, List.compare_cons_cons, ih firstFree.2 secondFree.2,
            Ordering.then_assoc]

theorem compare_div_mod (first second base : Nat) :
    compare first second =
      (compare (first / base) (second / base)).then (compare (first % base) (second % base)) := by
  rcases Nat.lt_trichotomy (first / base) (second / base) with below | same | above
  · rw [compare_lt_iff_lt.mpr below, compare_lt_iff_lt.mpr (Nat.lt_of_div_lt_div below)]
    rfl
  · have firstSplit := Nat.div_add_mod first base
    have secondSplit := Nat.div_add_mod second base
    rw [same] at firstSplit
    rw [compare_eq_iff_eq.mpr same, Ordering.eq_then]
    generalize base * (second / base) = whole at firstSplit secondSplit
    rcases Nat.lt_trichotomy (first % base) (second % base) with below | equal | above
    · rw [compare_lt_iff_lt.mpr below, compare_lt_iff_lt.mpr (by omega)]
    · rw [compare_eq_iff_eq.mpr equal, compare_eq_iff_eq.mpr (by omega)]
    · rw [compare_gt_iff_gt.mpr above, compare_gt_iff_gt.mpr (by omega)]
  · rw [compare_gt_iff_gt.mpr above, compare_gt_iff_gt.mpr (Nat.lt_of_div_lt_div above)]
    rfl

theorem compare_byte (first second : UInt8) :
    compare [first] [second] = compare first.toNat second.toNat := by
  rw [List.compare_cons_cons, List.compare_nil_nil, Ordering.then_eq,
    UInt8.compare_eq_toNat_compare_toNat]

theorem encode_bigEndian_succ (width value : Nat) :
    ByteOrder.bigEndian.encode (width + 1) value =
      ByteOrder.bigEndian.encode width (value / 256) ++ [UInt8.ofNat value] := by
  simp [ByteOrder.encode, ByteOrder.lowBytes]

/-- Big-endian numbers of one width compare as the numbers do. -/
theorem compare_bigEndian (width : Nat) {first second : Nat} (firstBound : first < 256 ^ width)
    (secondBound : second < 256 ^ width) :
    compare (ByteOrder.bigEndian.encode width first) (ByteOrder.bigEndian.encode width second) =
      compare first second := by
  induction width generalizing first second with
  | zero =>
      have firstZero : first = 0 := by simpa using firstBound
      have secondZero : second = 0 := by simpa using secondBound
      rw [firstZero, secondZero]
      rfl
  | succ width ih =>
      have higher := @ih (first / 256) (second / 256) (by rw [Nat.pow_succ] at firstBound; omega)
        (by rw [Nat.pow_succ] at secondBound; omega)
      have last : compare [UInt8.ofNat first] [UInt8.ofNat second] =
          compare (first % 256) (second % 256) := by
        rw [compare_byte, UInt8.toNat_ofNat', UInt8.toNat_ofNat']
      rw [encode_bigEndian_succ, encode_bigEndian_succ, compare_append (by simp), higher, last,
        compare_div_mod first second 256]

end OrderCode
