import LmdbJni.StringFields

/-!
The read accessors of `BufferCursor` on the entry of the last navigation. Every accessor is a
`Request` to one of the two views. `Request.Correct` is what its caller expects of the bytes of
the entry, `Request.Exact` when the 32-bit sum of `boundsCheck` and the clamping of `getBytes`
amount to that.
-/

namespace LmdbJni

open ByteStore Execution Wrapping

deriving instance DecidableEq for Datum

inductive Side
  | key
  | value

def Side.view : Side → BufferCursor → DirectBuffer
  | key => keyBuffer
  | value => valBuffer

def Side.text (entry : List UInt8 × List UInt8) : Side → List UInt8
  | key => entry.1
  | value => entry.2

inductive Request
  | fixed (pos : Int) (width : Nat) (datum : Nat → Datum)
  | bytes (pos length : Int)
  | string (pos : Int)
  | whole
  | view

namespace Accessor

def side : Accessor → Side
  | keyBoolean _ | keyByte _ | keyInt _ | keyLong _ | keyFloat _ | keyDouble _ | keyUtf8 _
  | keyBytesAt _ _ | keyBytes | keyDirectBuffer => .key
  | _ => .value

def request : Accessor → Request
  | keyBoolean pos | valBoolean pos => .fixed pos 1 fun value => .boolean (UInt8.ofNat value == 1)
  | keyByte pos | valByte pos => .fixed pos 1 fun value => .byte (UInt8.ofNat value)
  | keyInt pos | valInt pos => .fixed pos 4 fun value => .int (BitVec.ofNat 32 value)
  | keyLong pos | valLong pos => .fixed pos 8 fun value => .long (BitVec.ofNat 64 value)
  | keyFloat pos | valFloat pos => .fixed pos 4 fun value => .float (BitVec.ofNat 32 value)
  | keyDouble pos | valDouble pos => .fixed pos 8 fun value => .double (BitVec.ofNat 64 value)
  | keyUtf8 pos | valUtf8 pos => .string pos
  | keyBytesAt pos length | valBytesAt pos length => .bytes pos length
  | keyBytes | valBytes => .whole
  | keyDirectBuffer | valDirectBuffer => .view

end Accessor

/-- The number a view shows at a position, if the bounds check lets it through. -/
def DirectBuffer.number (view : DirectBuffer) (memory : Memory) (pos : Int) (width : Nat) :
    Except Throwable Nat :=
  if view.InBounds pos width then
    .ok (ByteOrder.bigEndian.decode (read memory view.region (view.addressOffset + pos) width))
  else .error (.indexOutOfBounds
    s!"index={pos}, length={(width : Int)}, capacity={view.capacity}")

namespace Request

/-- The arguments are `int`s. -/
def Representable : Request → Prop
  | fixed pos _ _ | string pos => IsInt pos
  | bytes pos length => IsInt pos ∧ IsInt length
  | whole | view => True

/-- What a view answers. -/
def answer (shown : DirectBuffer) (memory : Memory) : Request → Except Throwable Datum
  | fixed pos width datum => (shown.number memory pos width).map datum
  | bytes pos length => (outcome ((shown.getNewBytes pos length).run memory)).map .bytes
  | string pos => (outcome ((shown.getString pos).run memory)).map .bytes
  | whole => (outcome ((shown.getNewBytes 0 shown.capacity).run memory)).map .bytes
  | view => .ok (.buffer shown)

/-- What the caller expects: a value decoded from the bytes of the entry if they are there, an
exception if not, and never anything else than bytes of the entry. -/
def Correct (text : List UInt8) (memory : Memory) (result : Except Throwable Datum) :
    Request → Prop
  | fixed pos width datum =>
      if 0 ≤ pos ∧ pos + width ≤ text.length then
        result = .ok (datum (ByteOrder.bigEndian.decode ((text.drop pos.toNat).take width)))
      else ∃ error, result = .error error
  | bytes pos length =>
      if 0 ≤ pos ∧ 0 ≤ length ∧ pos + length ≤ text.length then
        result = .ok (.bytes ((text.drop pos.toNat).take length.toNat))
      else ∃ error, result = .error error
  | string pos => ∀ bytes, result = .ok (.bytes bytes) → bytes <+: text.drop pos.toNat
  | whole => ∀ bytes, result = .ok (.bytes bytes) → bytes <+: text
  | view => ∀ shown, result = .ok (.buffer shown) →
      read memory shown.region shown.addressOffset shown.capacity.toNat <+: text

/-- The check of the 32-bit sum against the capacity, itself an `int`, decides like the
mathematical one; a clamped copy is not accepted, or pads with what is there. -/
def Exact (text : List UInt8) : Request → Prop
  | fixed pos width _ =>
      0 ≤ pos → (wrap32 (pos + width) ≤ wrap32 text.length ↔ pos + width ≤ text.length)
  | bytes pos length =>
      let count := min length (wrap32 (wrap32 text.length - pos))
      0 ≤ pos → 0 ≤ length →
        if 0 ≤ count ∧ wrap32 (pos + count) ≤ wrap32 text.length then
          pos + length ≤ text.length ∧
            ∀ byte ∈ ((text.drop pos.toNat).take length.toNat).drop count.toNat, byte = 0
        else text.length < pos + length
  | string _ | whole | view => True

end Request

section Answers

variable {platform : Platform} {view : DirectBuffer} {memory : Memory} {pos : Int}

theorem decode_single (byte : UInt8) : ByteOrder.bigEndian.decode [byte] = byte.toNat := by
  simp [ByteOrder.decode, ByteOrder.ofLowBytes]

theorem getScalar_yields (width : Nat) :
    Yields (view.getScalar platform width pos .bigEndian) memory (view.number memory pos width) := by
  unfold Yields DirectBuffer.number
  by_cases inside : view.InBounds pos width
  · rw [run_getScalar _ _ _ _ _ _ inside, if_pos inside]
    exact ⟨rfl, rfl⟩
  · have refused : (view.getScalar platform width pos .bigEndian).run memory = _ :=
      run_bind_guard (view.run_boundsCheck pos width memory)
    rw [refused, if_neg inside, if_neg inside]
    exact ⟨rfl, rfl⟩

theorem getByte_yields :
    Yields (view.getByte pos) memory ((view.number memory pos 1).map UInt8.ofNat) := by
  unfold Yields DirectBuffer.number
  by_cases inside : view.InBounds pos 1
  · rw [run_getByte _ _ _ inside, if_pos (by exact inside), read_succ, read_zero]
    refine ⟨congrArg Except.ok ?_, rfl⟩
    rw [decode_single, UInt8.ofNat_toNat]
  · have refused : (view.getByte pos).run memory = _ :=
      run_bind_guard (view.run_boundsCheck pos 1 memory)
    rw [refused, if_neg inside, if_neg (by exact inside)]
    exact ⟨rfl, rfl⟩

theorem map_map {ε α β γ : Type} (first : α → β) (second : β → γ) (result : Except ε α) :
    (result.map first).map second = result.map fun value => second (first value) := by
  cases result <;> rfl

theorem byteIsOne_yields :
    Yields ((· == 1) <$> view.getByte pos) memory
      ((view.number memory pos 1).map fun value => UInt8.ofNat value == 1) := by
  have mapped := (@getByte_yields view memory pos).map (· == 1)
  rwa [map_map] at mapped

theorem getNewBytes_yields (length : Int) :
    Yields (view.getNewBytes pos length) memory
      (outcome ((view.getNewBytes pos length).run memory)) := by
  refine ⟨rfl, ?_⟩
  rw [run_getNewBytes_clamped]
  split
  · rfl
  · split <;> rfl

theorem scanString_keeps (turns : Nat) (index : Int) :
    finalState ((view.scanString turns index).run memory) = memory := by
  induction turns generalizing index with
  | zero => rfl
  | succ turns ih =>
      rw [run_scanString]
      split
      · split
        · exact ih _
        · rfl
      · rfl

theorem getString_yields :
    Yields (view.getString pos) memory (outcome ((view.getString pos).run memory)) := by
  refine ⟨rfl, ?_⟩
  have kept := @scanString_keeps view memory (view.capacity.toNat + 2) pos
  unfold DirectBuffer.getString
  rw [EStateM.run_bind]
  cases ran : (view.scanString (view.capacity.toNat + 2) pos).run memory with
  | ok index after =>
      rw [ran] at kept
      subst kept
      exact (getNewBytes_yields _).2
  | error error after =>
      rw [ran] at kept
      exact kept

end Answers

section Accessors

variable {platform : Platform} {world : World}

theorem yields_readThrough {α : Type} {view : BufferCursor → DirectBuffer}
    {body : DirectBuffer → EStateM Throwable Memory α} {result : Except Throwable α}
    (valid : world.object.validPosition = true)
    (yields : Yields (body (view world.object)) world.memory result) :
    Yields (readThrough view body) world result := by
  obtain ⟨ended, kept⟩ := yields
  unfold Yields
  rw [run_readThrough _ _ valid]
  simp only [inMemory, run_zoom]
  cases ran : (body (view world.object)).run world.memory with
  | ok value after =>
      rw [ran] at ended kept
      subst kept
      exact ⟨ended, rfl⟩
  | error error after =>
      rw [ran] at ended kept
      subst kept
      exact ⟨ended, rfl⟩

theorem fixed_yields {α : Type} {view : BufferCursor → DirectBuffer}
    {body : DirectBuffer → EStateM Throwable Memory α} {pos : Int} {width : Nat}
    {convert : Nat → α} (wrap : α → Datum) (valid : world.object.validPosition = true)
    (yields : Yields (body (view world.object)) world.memory
      (((view world.object).number world.memory pos width).map convert)) :
    Yields (wrap <$> readThrough view body) world
      (((view world.object).number world.memory pos width).map fun value =>
        wrap (convert value)) := by
  have wrapped := (yields_readThrough valid yields).map wrap
  rwa [map_map] at wrapped

/-- Every accessor asks one of the two views, and leaves everything as it is. -/
theorem accessor_yields (accessor : Accessor) (valid : world.object.validPosition = true) :
    Yields (accessor.perform platform) world
      (accessor.request.answer (accessor.side.view world.object) world.memory) := by
  cases accessor with
  | keyBoolean pos => exact fixed_yields .boolean valid byteIsOne_yields
  | keyByte pos => exact fixed_yields .byte valid getByte_yields
  | keyInt pos => exact fixed_yields .int valid ((getScalar_yields 4).map _)
  | keyLong pos => exact fixed_yields .long valid ((getScalar_yields 8).map _)
  | keyFloat pos => exact fixed_yields .float valid ((getScalar_yields 4).map _)
  | keyDouble pos => exact fixed_yields .double valid ((getScalar_yields 8).map _)
  | keyUtf8 pos => exact (yields_readThrough valid getString_yields).map _
  | keyBytesAt pos length => exact (yields_readThrough valid (getNewBytes_yields length)).map _
  | keyBytes => exact (yields_readThrough valid (getNewBytes_yields _)).map _
  | keyDirectBuffer => exact (yields_readThrough valid ⟨rfl, rfl⟩).map Datum.buffer
  | valBoolean pos => exact fixed_yields .boolean valid byteIsOne_yields
  | valByte pos => exact fixed_yields .byte valid getByte_yields
  | valInt pos => exact fixed_yields .int valid ((getScalar_yields 4).map _)
  | valLong pos => exact fixed_yields .long valid ((getScalar_yields 8).map _)
  | valFloat pos => exact fixed_yields .float valid ((getScalar_yields 4).map _)
  | valDouble pos => exact fixed_yields .double valid ((getScalar_yields 8).map _)
  | valUtf8 pos => exact (yields_readThrough valid getString_yields).map _
  | valBytesAt pos length => exact (yields_readThrough valid (getNewBytes_yields length)).map _
  | valBytes => exact (yields_readThrough valid (getNewBytes_yields _)).map _
  | valDirectBuffer => exact (yields_readThrough valid ⟨rfl, rfl⟩).map Datum.buffer

end Accessors

section Entry

variable {view : DirectBuffer} {memory : Memory} {text bytes : List UInt8} {pos : Int}

/-- A view of a key or value of any size, its capacity cut down to an `int`. -/
structure DirectBuffer.Presents (view : DirectBuffer) (memory : Memory) (text : List UInt8) :
    Prop where
  capacity : view.capacity = wrap32 text.length
  bytes : read memory view.region view.addressOffset text.length = text

theorem DirectBuffer.Presents.segment (presents : view.Presents memory text) {count : Nat}
    (lower : 0 ≤ pos) (inside : pos + count ≤ text.length) :
    read memory view.region (view.addressOffset + pos) count =
      (text.drop pos.toNat).take count := by
  obtain ⟨rest, total⟩ : ∃ rest, text.length = pos.toNat + (count + rest) :=
    ⟨text.length - pos.toNat - count, by omega⟩
  have whole := presents.bytes
  rw [total, read_append, read_append, Int.toNat_of_nonneg lower] at whole
  rw [← whole, List.drop_left' (by simp), List.take_left' (by simp)]

theorem wrap32_le_of_nonneg (value : Nat) : wrap32 value ≤ value := by
  unfold wrap32
  omega

theorem DirectBuffer.Presents.behind_leads (presents : view.Presents memory text)
    (lower : 0 ≤ pos) : view.behind memory pos <+: text.drop pos.toNat := by
  by_cases past : view.capacity ≤ pos
  · rw [behind_empty past]
    exact List.nil_prefix
  · have most := wrap32_le_of_nonneg text.length
    rw [← presents.capacity] at most
    rw [DirectBuffer.behind, presents.segment lower (by omega)]
    exact List.take_prefix ..

theorem DirectBuffer.Presents.shown_leads (presents : view.Presents memory text) :
    read memory view.region view.addressOffset view.capacity.toNat <+: text := by
  have behind := @DirectBuffer.Presents.behind_leads view memory text 0 presents (le_refl 0)
  simpa [DirectBuffer.behind] using behind

/-- At the last `int` the check of one byte passes, but nothing comes of it. -/
theorem getString_past {after : Memory} (lower : 0 ≤ pos) (upper : pos ≤ 2147483647)
    (past : view.capacity ≤ pos)
    (ran : (view.getString pos).run memory = .ok bytes after) : bytes = [] := by
  unfold DirectBuffer.getString at ran
  rw [EStateM.run_bind, run_scanString] at ran
  by_cases inside : view.InBounds pos 1
  · have last : pos = 2147483647 := by
      obtain ⟨-, -, below⟩ := inside
      unfold wrap32 at below
      omega
    subst last
    have wrapped : wrap32 (2147483647 + 1) = -2147483648 := by decide
    have outside : ¬view.InBounds (-2147483648) 1 := fun inside => absurd inside.1 (by decide)
    rw [if_pos inside, wrapped, run_scanString, if_neg outside] at ran
    by_cases zero : memory view.region (view.addressOffset + 2147483647) ≠ 0
    · rw [if_pos zero] at ran
      cases ran
    · have none : wrap32 (-2147483648 - 2147483647 - 1) = 0 := by decide
      rw [if_neg zero] at ran
      dsimp only at ran
      rw [none, run_getNewBytes_clamped, if_neg (by decide)] at ran
      split at ran
      · rename_i accepted
        have count : min 0 (wrap32 (view.capacity - 2147483647)) = 0 := by
          have positive := accepted.2.1
          omega
        rw [count] at ran
        cases ran
        rfl
      · cases ran
  · rw [if_neg inside] at ran
    cases ran

theorem getString_leads {after : Memory} (int : IsInt pos) (capacity : view.capacity ≤ 2147483647)
    (ran : (view.getString pos).run memory = .ok bytes after) :
    0 ≤ pos ∧ bytes <+: view.behind memory pos := by
  have lower : 0 ≤ pos := by
    by_contra negative
    have outside : ¬view.InBounds pos 1 := fun inside => negative inside.1
    unfold DirectBuffer.getString at ran
    rw [EStateM.run_bind, run_scanString, if_neg outside] at ran
    cases ran
  refine ⟨lower, ?_⟩
  by_cases past : view.capacity ≤ pos
  · rw [getString_past lower int.2 past ran]
    exact List.nil_prefix
  · by_cases zero : (0 : UInt8) ∈ view.behind memory pos
    · obtain ⟨first, rest, there, free⟩ := List.eq_append_cons_of_mem zero
      rw [getString_found lower capacity there free] at ran
      cases ran
      exact ⟨0 :: rest, there.symm⟩
    · by_cases full : view.capacity = 2147483647
      · rw [getString_overflowing lower (by omega) full zero] at ran
        split at ran
        · cases ran
          exact List.prefix_rfl
        · cases ran
      · rw [getString_missing lower (by omega) (by omega) zero] at ran
        cases ran

theorem fixed_correct_iff {width : Nat} {datum : Nat → Datum} (presents : view.Presents memory text) :
    (Request.fixed pos width datum).Correct text memory
        ((Request.fixed pos width datum).answer view memory) ↔
      (Request.fixed pos width datum).Exact text := by
  simp only [Request.Correct, Request.answer, Request.Exact, DirectBuffer.number]
  by_cases lower : 0 ≤ pos
  · have accepted : view.InBounds pos width ↔ wrap32 (pos + width) ≤ wrap32 text.length := by
      rw [← presents.capacity]
      exact ⟨fun inside => inside.2.2, fun below => ⟨lower, Int.natCast_nonneg _, below⟩⟩
    by_cases inside : pos + width ≤ text.length
    · rw [if_pos ⟨lower, inside⟩, ← accepted]
      by_cases passes : view.InBounds pos width
      · rw [if_pos passes, presents.segment lower inside]
        exact iff_of_true rfl fun _ => iff_of_true passes inside
      · rw [if_neg passes]
        refine iff_of_false nofun fun exact => passes ((exact lower).mpr inside)
    · rw [if_neg fun both => inside both.2, ← accepted]
      by_cases passes : view.InBounds pos width
      · rw [if_pos passes]
        refine iff_of_false (by rintro ⟨error, impossible⟩; cases impossible) ?_
        exact fun exact => inside ((exact lower).mp passes)
      · rw [if_neg passes]
        exact iff_of_true ⟨_, rfl⟩ fun _ => iff_of_false passes inside
  · have refused : ¬view.InBounds pos width := fun inside => lower inside.1
    rw [if_neg fun both => lower both.1, if_neg refused]
    exact iff_of_true ⟨_, rfl⟩ fun positive => absurd positive lower

/-- Padding with zeros changes nothing where zeros are. -/
theorem padded_eq_iff (whole : List UInt8) (count : Nat) :
    whole.take count ++ List.replicate (whole.length - count) 0 = whole ↔
      ∀ byte ∈ whole.drop count, byte = 0 := by
  have parts := List.take_append_drop count whole
  constructor
  · intro same byte member
    have rest := List.append_cancel_left (same.trans parts.symm)
    rw [← rest] at member
    exact (List.mem_replicate.mp member).2
  · intro zeros
    have rest := List.eq_replicate_of_mem zeros
    rw [List.length_drop] at rest
    rw [← rest, parts]

theorem bytes_correct_iff {length : Int} (presents : view.Presents memory text) :
    (Request.bytes pos length).Correct text memory
        ((Request.bytes pos length).answer view memory) ↔
      (Request.bytes pos length).Exact text := by
  simp only [Request.Correct, Request.answer, Request.Exact, ← presents.capacity]
  rw [run_getNewBytes_clamped]
  by_cases positive : 0 ≤ length
  · rw [if_neg (not_lt.mpr positive)]
    by_cases lower : 0 ≤ pos
    · generalize counted : min length (wrap32 (view.capacity - pos)) = count
      have most : count ≤ length := by omega
      have accepted : view.InBounds pos count ↔
          0 ≤ count ∧ wrap32 (pos + count) ≤ view.capacity :=
        ⟨fun inside => inside.2, fun checked => ⟨lower, checked⟩⟩
      by_cases passes : view.InBounds pos count
      · rw [if_pos passes, if_pos (accepted.mp passes)]
        by_cases inside : pos + length ≤ text.length
        · rw [if_pos ⟨lower, positive, inside⟩]
          have counted := passes.2.1
          have total : ((text.drop pos.toNat).take length.toNat).length = length.toNat := by
            rw [List.length_take, List.length_drop]
            omega
          have padded := padded_eq_iff ((text.drop pos.toNat).take length.toNat) count.toNat
          rw [List.take_take, total, min_eq_left (by omega)] at padded
          have rest : (length - count).toNat = length.toNat - count.toNat := by omega
          rw [presents.segment lower (by omega), rest]
          refine Iff.trans ⟨fun same => ?_, fun same => ?_⟩
            (padded.trans ⟨fun zeros _ _ => ⟨inside, zeros⟩, fun exact => (exact lower positive).2⟩)
          · injection same with same
            injection same
          · exact congrArg (fun bytes => Except.ok (Datum.bytes bytes)) same
        · rw [if_neg fun all => inside all.2.2]
          refine iff_of_false (by rintro ⟨error, impossible⟩; cases impossible) ?_
          exact fun exact => inside (exact lower positive).1
      · rw [if_neg passes, if_neg fun checked => passes (accepted.mpr checked)]
        by_cases inside : pos + length ≤ text.length
        · rw [if_pos ⟨lower, positive, inside⟩]
          exact iff_of_false nofun fun exact => absurd (exact lower positive) (not_lt.mpr inside)
        · rw [if_neg fun all => inside all.2.2]
          exact iff_of_true ⟨_, rfl⟩ fun _ _ => not_le.mp inside
    · have refused (count : Int) : ¬view.InBounds pos count := fun inside => lower inside.1
      rw [if_neg fun both => lower both.1, if_neg (refused _)]
      exact iff_of_true ⟨_, rfl⟩ fun above => absurd above lower
  · rw [if_pos (not_le.mp positive), if_neg fun both => positive both.2.1]
    exact iff_of_true ⟨_, rfl⟩ fun _ above => absurd above positive

theorem request_correct_iff {request : Request} (presents : view.Presents memory text)
    (representable : request.Representable) :
    request.Correct text memory (request.answer view memory) ↔ request.Exact text := by
  have capacity : view.capacity ≤ 2147483647 := by
    rw [presents.capacity]
    exact wrap32_upper _
  cases request with
  | fixed pos width datum => exact fixed_correct_iff presents
  | bytes pos length => exact bytes_correct_iff presents
  | string pos =>
      refine iff_of_true ?_ trivial
      intro bytes answered
      cases ran : (view.getString pos).run memory with
      | ok value after =>
          simp only [Request.answer, ran, outcome_ok] at answered
          cases answered
          obtain ⟨lower, leads⟩ := getString_leads representable capacity ran
          exact leads.trans (presents.behind_leads lower)
      | error error after =>
          simp only [Request.answer, ran, outcome_error] at answered
          cases answered
  | whole =>
      refine iff_of_true ?_ trivial
      intro bytes answered
      by_cases negative : view.capacity < 0
      · simp only [Request.answer, run_getNewBytes_clamped, if_pos negative] at answered
        cases answered
      · have ran := run_getNewBytes view 0 memory (le_refl 0) (not_lt.mp negative) (by omega) capacity
        simp only [Request.answer, ran, outcome_ok, Int.add_zero] at answered
        cases answered
        exact presents.shown_leads
  | view =>
      refine iff_of_true ?_ trivial
      intro shown answered
      cases answered
      exact presents.shown_leads

end Entry

section Exact

variable {text : List UInt8} {pos : Int}

/-- On entries that an `int` can measure only the overflow of the sum is left. -/
theorem fixed_exact_iff {width : Nat} {datum : Nat → Datum} (small : text.length ≤ 2147483647)
    (int : IsInt pos) (narrow : width ≤ 8) :
    (Request.fixed pos width datum).Exact text ↔ pos < 0 ∨ pos + width ≤ 2147483647 := by
  have length : wrap32 text.length = text.length := wrap32_natCast small
  have upper := int.2
  simp only [Request.Exact, length]
  unfold wrap32
  omega

/-- And requests that start inside the entry and end behind it. -/
theorem bytes_exact_iff {length : Int} (small : text.length ≤ 2147483647) (int : IsInt pos) :
    (Request.bytes pos length).Exact text ↔
      pos < 0 ∨ length < 0 ∨ text.length < pos ∨ pos + length ≤ text.length := by
  have capacity : wrap32 text.length = text.length := wrap32_natCast small
  have upper := int.2
  simp only [Request.Exact, capacity]
  by_cases lower : 0 ≤ pos
  · by_cases positive : 0 ≤ length
    · have left : wrap32 (text.length - pos) = text.length - pos :=
        wrap32_of_mem (by omega) (by omega)
      have sum (count : Int) (bound : count ≤ text.length - pos) (above : 0 ≤ count) :
          wrap32 (pos + count) = pos + count :=
        wrap32_of_mem (by omega) (by omega)
      rw [left]
      by_cases past : text.length < pos
      · rw [if_neg (by omega)]
        exact iff_of_true (fun _ _ => by omega) (.inr (.inr (.inl past)))
      · rw [if_pos ⟨by omega, by rw [sum _ (by omega) (by omega)]; omega⟩]
        by_cases inside : pos + length ≤ text.length
        · refine iff_of_true (fun _ _ => ⟨inside, ?_⟩) (.inr (.inr (.inr inside)))
          have whole : min length (text.length - pos) = length := by omega
          rw [whole, List.drop_eq_nil_of_le (List.length_take_le ..)]
          exact List.forall_mem_nil _
        · refine iff_of_false (fun exact => inside (exact lower positive).1) ?_
          omega
    · exact iff_of_true (fun _ above => absurd above positive) (.inr (.inl (by omega)))
  · exact iff_of_true (fun above => absurd above lower) (.inl (by omega))

end Exact

section Navigation

variable {platform : Platform} {world : World} {event : Event} {result : NativeReturn}

/-- `DirectBuffer.wrap(long address, int length)`, called with `(int) size`. -/
theorem presents_wrapped (memory : Memory) (address : Int) {size : Int} (positive : 0 ≤ size) :
    (DirectBuffer.wrapAddress address (wrap32 size)).Presents memory
      (read memory .native address size.toNat) := by
  refine ⟨?_, ?_⟩
  · rw [read_length, Int.toNat_of_nonneg positive]
    rfl
  · rw [read_length]
    rfl

theorem navigation_presents (live : world.object.cursor.self ≠ 0)
    (called : event.nativeReturn world = some result)
    (returned : event.reply platform world = .ok true)
    (keySize : 0 ≤ result.slots.keySize) (valSize : 0 ≤ result.slots.valSize) :
    let after := event.step platform world
    after.object.validPosition = true ∧
      ∀ side : Side, (side.view after.object).Presents after.memory
        (side.text (result.slots.denote result.memory)) := by
  intro after
  have ended := Event.navigation_cases platform live called
  have stepped : after = finalState ((event.perform platform).run world) := rfl
  unfold Event.reply at returned
  generalize (event.perform platform).run world = ending at ended returned stepped
  cases ended with
  | missing code => cases returned
  | failed nonzero present => cases returned
  | found code =>
      refine ⟨by simp [stepped, BufferCursor.setDatabaseMemoryLocation], ?_⟩
      rw [stepped]
      intro side
      cases side with
      | key => exact presents_wrapped result.memory result.slots.keyData keySize
      | value => exact presents_wrapped result.memory result.slots.valData valSize

theorem accessors_exact_iff {history : List Event} {accessor : Accessor}
    (opened : Opened platform world) (representable : accessor.request.Representable) :
    let before := run (Event.step platform) world history
    event.nativeReturn before = some result → event.reply platform before = .ok true →
    0 ≤ result.slots.keySize → 0 ≤ result.slots.valSize →
    let after := event.step platform before
    let text := accessor.side.text (result.slots.denote result.memory)
    finalState ((accessor.perform platform).run after) = after ∧
      (accessor.request.Correct text after.memory
          (outcome ((accessor.perform platform).run after)) ↔
        accessor.request.Exact text) := by
  intro before called returned keySize valSize after text
  have grounded := run_grounded platform history opened.grounded
  obtain ⟨valid, presents⟩ :=
    navigation_presents grounded.live called returned keySize valSize
  obtain ⟨answered, kept⟩ := @accessor_yields platform after accessor valid
  rw [answered]
  exact ⟨kept, request_correct_iff (presents accessor.side) representable⟩

/-- A navigation that finds this entry. -/
def findsEntry (entry : List UInt8 × List UInt8) : Event :=
  .position .first fun _ _ memory => placeEntry entry memory

theorem accessors_exact_on_two_bytes :
    outcome (((Accessor.valBytesAt 1 1).perform sampleHost).run
      (Event.step sampleHost sampleWorld (findsEntry ([7], [1, 2])))) = .ok (.bytes [2]) := by
  obtain ⟨-, correct_iff⟩ := @accessors_exact_iff sampleHost sampleWorld
    (findsEntry ([7], [1, 2])) (placeEntry ([7], [1, 2]) sampleWorld.memory) []
    (.valBytesAt 1 1) sampleWorld_opened ⟨by decide, by decide⟩ rfl rfl (by decide) (by decide)
  rw [(placeEntry_delivers ([7], [1, 2]) sampleWorld.memory).denote] at correct_iff
  have correct := correct_iff.mpr ((@bytes_exact_iff [1, 2] 1 1 (by decide) (by decide)).mpr
    (by decide))
  unfold Request.Correct at correct
  exact correct

/-- `valBytes(0, 3)` of a value of two bytes invents the third, and `valInt` at the last `int`
reads behind the value. -/
theorem accessors_read_past_entry :
    Opened sampleHost sampleWorld ∧
    Event.reply sampleHost sampleWorld (findsEntry ([7], [1, 2])) = .ok true ∧
    outcome (((Accessor.valBytesAt 0 3).perform sampleHost).run
      (Event.step sampleHost sampleWorld (findsEntry ([7], [1, 2])))) = .ok (.bytes [1, 2, 0]) ∧
    outcome (((Accessor.valInt 2147483647).perform sampleHost).run
      (Event.step sampleHost sampleWorld (findsEntry ([7], [1, 2])))) = .ok (.int 0) :=
  ⟨sampleWorld_opened, rfl, by decide +kernel, by decide +kernel⟩

end Navigation

end LmdbJni
