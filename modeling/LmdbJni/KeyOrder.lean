import LmdbJni.BufferCursorCopy
import LmdbJni.Library.OrderCode

/-!
Composite keys. A key written field by field with `keyWriteBoolean`, `keyWriteByte`,
`keyWriteInt`, `keyWriteLong` and `keyWriteUtf8` is the concatenation of the encodings of its
fields, and LMDB's default order of two such keys is the order of the two tuples. Numbers compare
as unsigned numbers; a `byte` argument counts with its low eight bits.
-/

namespace LmdbJni

open ByteStore Execution Wrapping OrderCode

inductive FieldType
  | boolean
  | byte
  | int
  | long
  | string
  deriving DecidableEq, Repr

inductive Field
  | boolean (data : Bool)
  | byte (data : BitVec 32)
  | int (data : BitVec 32)
  | long (data : BitVec 64)
  | string (data : ByteString) (free : 0 ∉ data.bytes)

namespace Field

def type : Field → FieldType
  | boolean _ => .boolean
  | byte _ => .byte
  | int _ => .int
  | long _ => .long
  | string _ _ => .string

def write : Field → KeyWrite
  | boolean data => .boolean data
  | byte data => .byte data
  | int data => .int data
  | long data => .long data
  | string data _ => .utf8 data

def order : Field → Field → Ordering
  | boolean first, boolean second => compare first.toNat second.toNat
  | byte first, byte second => compare (first.toNat % 256) (second.toNat % 256)
  | int first, int second => compare first.toNat second.toNat
  | long first, long second => compare first.toNat second.toNat
  | string first _, string second _ => compare first.bytes second.bytes
  | _, _ => .eq

/-- The field without the part of a `byte` argument that is not written. -/
def significant : Field → Field
  | byte data => .byte (BitVec.ofNat 32 (data.toNat % 256))
  | field => field

def encode : Field → List UInt8
  | boolean data => [if data then 1 else 0]
  | byte data => [UInt8.ofNat data.toNat]
  | int data => ByteOrder.bigEndian.encode 4 data.toNat
  | long data => ByteOrder.bigEndian.encode 8 data.toNat
  | string data _ => data.bytes ++ [0]

theorem zero_least (byte : UInt8) (nonzero : byte ≠ 0) :
    compare 0 byte = .lt ∧ compare byte 0 = .gt := by
  have positive : 0 < byte.toNat := by
    rcases Nat.eq_zero_or_pos byte.toNat with zero | positive
    · exact absurd (UInt8.toNat_inj.mp zero) nonzero
    · exact positive
  rw [UInt8.compare_eq_toNat_compare_toNat, UInt8.compare_eq_toNat_compare_toNat]
  exact ⟨compare_lt_iff_lt.mpr positive, compare_gt_iff_gt.mpr positive⟩

theorem embeds {first second : Field} (same : first.type = second.type) :
    Embeds encode order first second := by
  cases first with
  | boolean first =>
      cases second with
      | boolean second =>
          refine embeds_of_length rfl ?_
          rw [encode, encode, compare_byte]
          cases first <;> cases second <;> rfl
      | _ => cases same
  | byte first =>
      cases second with
      | byte second =>
          refine embeds_of_length rfl ?_
          rw [encode, encode, compare_byte, UInt8.toNat_ofNat', UInt8.toNat_ofNat']
          rfl
      | _ => cases same
  | int first =>
      cases second with
      | int second =>
          refine embeds_of_length (by simp [encode]) ?_
          exact compare_bigEndian 4 first.isLt second.isLt
      | _ => cases same
  | long first =>
      cases second with
      | long second =>
          refine embeds_of_length (by simp [encode]) ?_
          exact compare_bigEndian 8 first.isLt second.isLt
      | _ => cases same
  | string first free =>
      cases second with
      | string second otherFree =>
          intro firstRest secondRest
          simp only [encode, order, List.append_assoc, List.cons_append, List.nil_append]
          exact compare_terminated zero_least free otherFree firstRest secondRest
      | _ => cases same

/-- Fields of one type compare equal exactly if what is written of them is the same. -/
theorem order_eq_iff {first second : Field} (same : first.type = second.type) :
    first.order second = .eq ↔ first.significant = second.significant := by
  cases first with
  | boolean first =>
      cases second with
      | boolean second => cases first <;> cases second <;> simp [order, significant]
      | _ => cases same
  | byte first =>
      cases second with
      | byte second =>
          simp only [order, significant, compare_eq_iff_eq, byte.injEq]
          constructor
          · intro equal
            rw [equal]
          · intro equal
            have low := congrArg BitVec.toNat equal
            simp only [BitVec.toNat_ofNat] at low
            omega
      | _ => cases same
  | int first =>
      cases second with
      | int second =>
          simp only [order, significant, compare_eq_iff_eq, int.injEq, BitVec.toNat_inj]
      | _ => cases same
  | long first =>
      cases second with
      | long second =>
          simp only [order, significant, compare_eq_iff_eq, long.injEq, BitVec.toNat_inj]
      | _ => cases same
  | string first free =>
      cases second with
      | string second otherFree =>
          simp only [order, significant, string.injEq, Std.LawfulEqOrd.compare_eq_iff_eq]
          constructor
          · intro equal
            cases first
            cases second
            cases equal
            rfl
          · intro equal
            rw [equal]
      | _ => cases same

end Field

/-- The key side in the middle of a key: `written` is what the calls so far have asked for. -/
structure KeyBegun (platform : Platform) (buffer : ByteBuffer) (world : World)
    (written : List UInt8) : Prop where
  live : world.object.cursor.self ≠ 0
  scratch : world.object.keyByteBuffer = buffer
  direct : buffer.isDirect = true
  index : world.object.keyWriteIndex = written.length
  view : world.object.keyDatbaseMemoryLocation = false →
    world.object.key = .wrapByteBuffer platform buffer
  begun : written ≠ [] → world.object.keyDatbaseMemoryLocation = false
  bytes : read world.memory .native (buffer.base platform) written.length = written

theorem Idle.begun {platform : Platform} {buffer : ByteBuffer} {world : World}
    (idle : Idle platform buffer world.object) : KeyBegun platform buffer world [] :=
  ⟨idle.live, idle.scratch, idle.direct, idle.index, idle.view, fun some => absurd rfl some, rfl⟩

section Writing

variable {platform : Platform} {buffer : ByteBuffer} {world : World} {written : List UInt8}

theorem Field.safe_eq (field : Field) (object : BufferCursor) :
    field.write.safe platform object = object.setSafeKeyMemoryLocation platform := by
  cases field <;> rfl

theorem Field.stored_eq (field : Field) (object : BufferCursor) (memory : Memory) :
    (field.write.payload object).stored memory ++
      (field.write.payload object).spill platform = field.encode := by
  cases field <;> simp [Field.write, KeyWrite.payload, Payload.stored, Payload.spill, Field.encode]

theorem Field.size_eq (field : Field) (object : BufferCursor) :
    (field.write.payload object).size = field.encode.length := by
  cases field with
  | string data free =>
      simp [Field.write, KeyWrite.payload, Payload.size, ByteString.size, Field.encode]
  | _ => simp [Field.write, KeyWrite.payload, Payload.size, Payload.length, Field.encode]

theorem Field.length_eq {field : Field} (object : BufferCursor)
    (small : field.encode.length ≤ 511) :
    (field.write.payload object).length = field.encode.length := by
  have size := field.size_eq object
  rw [Payload.length_eq_size (by omega), size]

theorem Field.whole (field : Field) (object : BufferCursor) :
    (field.write.payload object).Whole := by
  cases field <;> trivial

theorem KeyBegun.field {field : Field} (begun : KeyBegun platform buffer world written)
    (room : written.length + field.encode.length ≤ buffer.capacity)
    (small : field.encode.length ≤ 511) :
    ∃ after, (field.write.perform platform).run world = .ok () after ∧
      KeyBegun platform buffer after (written ++ field.encode) := by
  obtain ⟨live, rfl, direct, index, view, begun, bytes⟩ := begun
  have valid := world.object.keyByteBuffer.valid
  have safe : field.write.ready platform world = { world with object := { world.object with
      key := .wrapByteBuffer platform world.object.keyByteBuffer
      keyDatbaseMemoryLocation := false } } := by
    simp only [KeyWrite.ready, field.safe_eq, BufferCursor.setSafeKey_scratch view]
  have region := BufferCursor.region_wrapByteBuffer platform direct
  have ended := keyWrite_cases platform field.write world (by omega)
  generalize (field.write.perform platform).run world = ending at ended ⊢
  cases ended with
  | @accepted ready payload ready_eq payload_eq accepts =>
      rw [safe] at ready_eq
      subst ready_eq payload_eq
      refine ⟨_, rfl, live, rfl, direct, ?_, fun _ => rfl, fun _ => rfl, ?_⟩
      · simp only [BufferCursor.advanceKey, index, field.length_eq _ small, List.length_append]
        rw [wrap32_of_mem (by omega) (by omega)]
        omega
      · have extended := read_write_extend world.memory .native
          (world.object.keyByteBuffer.base platform) written.length field.encode
        rw [bytes] at extended
        simp only [World.writeKey, field.stored_eq, region, index, List.length_append]
        exact extended
  | @rejected ready payload leftover message ready_eq payload_eq rejects leaves =>
      rw [safe] at ready_eq
      subst ready_eq payload_eq
      refine absurd (Payload.accepts_of_room (field.whole _) ?_ ?_ ?_) rejects
      · simp only [index]
        omega
      · exact valid.2.2.2
      · simp only [index, DirectBuffer.wrapByteBuffer, field.size_eq]
        omega

/-- The calls that write a tuple, one field after the other. -/
def writeFields (platform : Platform) : List Field → Method Unit
  | [] => pure ()
  | field :: rest => do
      field.write.perform platform
      writeFields platform rest

theorem KeyBegun.fields {fields : List Field} (begun : KeyBegun platform buffer world written)
    (room : written.length + (fields.flatMap Field.encode).length ≤ buffer.capacity)
    (small : (fields.flatMap Field.encode).length ≤ 511) :
    ∃ after, (writeFields platform fields).run world = .ok () after ∧
      KeyBegun platform buffer after (written ++ fields.flatMap Field.encode) := by
  induction fields generalizing world written with
  | nil => exact ⟨world, rfl, by simpa using begun⟩
  | cons field rest ih =>
      simp only [List.flatMap_cons, List.length_append] at room small
      obtain ⟨middle, ran, reached⟩ := @KeyBegun.field _ _ _ _ field begun (by omega) (by omega)
      obtain ⟨after, others, finished⟩ := ih reached
        (by simp only [List.length_append]; omega) (by omega)
      refine ⟨after, ?_, by simpa using finished⟩
      rw [writeFields, EStateM.run_bind, ran]
      exact others

end Writing

/-- The key as far as it is written: `keyWriteIndex` bytes from the start of the key buffer. -/
def World.writtenKey (world : World) : List UInt8 :=
  read world.memory world.object.key.region world.object.key.addressOffset
    world.object.keyWriteIndex.toNat

section Order

variable {platform : Platform} {buffer : ByteBuffer} {world : World} {written : List UInt8}

theorem KeyBegun.writtenKey_eq (begun : KeyBegun platform buffer world written) :
    world.writtenKey = written := by
  unfold World.writtenKey
  rw [begun.index, Int.toNat_natCast]
  cases written with
  | nil => rfl
  | cons byte rest =>
      rw [begun.view (begun.begun (List.cons_ne_nil _ _)),
        BufferCursor.region_wrapByteBuffer platform begun.direct]
      exact begun.bytes

/-- A key that is not empty is what a submission hands to LMDB. -/
theorem KeyBegun.submitted (begun : KeyBegun platform buffer world written)
    (present : written ≠ []) : (world.object.pendingSlots.denote world.memory).1 = written := by
  have index := begun.index
  have length : written.length ≠ 0 := fun empty => present (List.length_eq_zero_iff.mp empty)
  simp only [Slots.denote, BufferCursor.pendingSlots]
  rw [if_pos (by omega), index, begun.view (begun.begun present), Int.toNat_natCast]
  exact begun.bytes

theorem Field.flatMap_encode_ne_nil {fields : List Field} (present : fields ≠ []) :
    fields.flatMap Field.encode ≠ [] := by
  have some (field : Field) : field.encode ≠ [] := by
    cases field <;> simp [Field.encode, ByteOrder.encode, ByteOrder.lowBytes]
  cases fields with
  | nil => exact absurd rfl present
  | cons field rest => simp [some field]

theorem Field.forall₂_embeds {first second : List Field}
    (schema : first.map Field.type = second.map Field.type) :
    List.Forall₂ (Embeds Field.encode Field.order) first second := by
  induction first generalizing second with
  | nil =>
      cases second with
      | nil => exact .nil
      | cons field rest => cases schema
  | cons field rest ih =>
      cases second with
      | nil => cases schema
      | cons other others =>
          simp only [List.map_cons, List.cons.injEq] at schema
          exact .cons (Field.embeds schema.1) (ih schema.2)

theorem Field.compareLex_eq_iff {first second : List Field}
    (schema : first.map Field.type = second.map Field.type) :
    first.compareLex Field.order second = .eq ↔
      first.map Field.significant = second.map Field.significant := by
  induction first generalizing second with
  | nil =>
      cases second with
      | nil => exact ⟨fun _ => rfl, fun _ => rfl⟩
      | cons field rest => cases schema
  | cons field rest ih =>
      cases second with
      | nil => cases schema
      | cons other others =>
          simp only [List.map_cons, List.cons.injEq] at schema
          rw [List.compareLex_cons_cons, Ordering.then_eq_eq, Field.order_eq_iff schema.1,
            ih schema.2, List.map_cons, List.map_cons, List.cons.injEq]

/-- Two tuples of one schema, written by two cursors that have no key begun: both are written
whole, the keys compare as the tuples do, and they are equal only for tuples that agree in all
that is written of them. The empty tuple writes no key. -/
theorem keys_embed_order {otherPlatform : Platform} {otherBuffer : ByteBuffer} {otherWorld : World}
    {first second : List Field} (idle : Idle platform buffer world.object)
    (otherIdle : Idle otherPlatform otherBuffer otherWorld.object)
    (schema : first.map Field.type = second.map Field.type)
    (room : (first.flatMap Field.encode).length ≤ buffer.capacity)
    (otherRoom : (second.flatMap Field.encode).length ≤ otherBuffer.capacity)
    (small : (first.flatMap Field.encode).length ≤ 511)
    (otherSmall : (second.flatMap Field.encode).length ≤ 511) :
    ∃ after otherAfter,
      (writeFields platform first).run world = .ok () after ∧
      (writeFields otherPlatform second).run otherWorld = .ok () otherAfter ∧
      compare after.writtenKey otherAfter.writtenKey = first.compareLex Field.order second ∧
      (after.writtenKey = otherAfter.writtenKey ↔
        first.map Field.significant = second.map Field.significant) ∧
      (first ≠ [] →
        (after.object.pendingSlots.denote after.memory).1 = after.writtenKey ∧
        (otherAfter.object.pendingSlots.denote otherAfter.memory).1 = otherAfter.writtenKey) := by
  obtain ⟨after, ran, begun⟩ := @KeyBegun.fields _ _ _ _ first idle.begun (by simpa using room) small
  obtain ⟨otherAfter, otherRan, otherBegun⟩ :=
    @KeyBegun.fields _ _ _ _ second otherIdle.begun (by simpa using otherRoom) otherSmall
  rw [List.nil_append] at begun otherBegun
  have order := compare_flatMap (Field.forall₂_embeds schema)
  refine ⟨after, otherAfter, ran, otherRan, ?_, ?_, ?_⟩
  · rw [begun.writtenKey_eq, otherBegun.writtenKey_eq, order]
  · rw [begun.writtenKey_eq, otherBegun.writtenKey_eq, ← Field.compareLex_eq_iff schema, ← order,
      Std.LawfulEqOrd.compare_eq_iff_eq]
  · intro present
    have otherPresent : second ≠ [] := by
      rintro rfl
      exact present (List.map_eq_nil_iff.mp schema)
    rw [begun.writtenKey_eq, otherBegun.writtenKey_eq]
    exact ⟨begun.submitted (Field.flatMap_encode_ne_nil present),
      otherBegun.submitted (Field.flatMap_encode_ne_nil otherPresent)⟩

theorem keys_embed_order_of_strings :
    ∃ after otherAfter,
      (writeFields sampleHost
        [.int 7, .string ⟨[97], by decide⟩ (by decide), .byte 1]).run sampleWorld =
        .ok () after ∧
      (writeFields sampleHost
        [.int 7, .string ⟨[97, 98], by decide⟩ (by decide), .byte 0]).run sampleWorld =
        .ok () otherAfter ∧
      compare after.writtenKey otherAfter.writtenKey = .lt := by
  obtain ⟨after, otherAfter, ran, otherRan, order, -⟩ :=
    @keys_embed_order sampleHost _ sampleWorld sampleHost _ sampleWorld
      [.int 7, .string ⟨[97], by decide⟩ (by decide), .byte 1]
      [.int 7, .string ⟨[97, 98], by decide⟩ (by decide), .byte 0]
      sampleWorld_opened.idle sampleWorld_opened.idle rfl (by decide) (by decide) (by decide)
      (by decide)
  exact ⟨after, otherAfter, ran, otherRan, order⟩

end Order

end LmdbJni
