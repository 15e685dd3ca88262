import Seismogram.Proofs.Assembly.Keeping
import Seismogram.Proofs.Assembly.Parallel

/-!
# Stored byte order

The order in which the words of a chunk are stored cannot be told from what is assembled. A chunk
that is stored in the other order, with its flag set accordingly, yields the same samples, the same
failure and the same warnings, whatever is wrong with it; so batches in which any chunks have been
stored anew are assembled alike. Nor does it matter what the host's own order is taken to be, as
long as the chunks are flagged with respect to it.
-/

namespace Seismogram

theorem map_mapIdx_eq_map {α β : Type} {f : α → β} {g : Nat → α → α}
    (same : ∀ i a, f (g i a) = f a) (as : List α) : (as.mapIdx g).map f = as.map f := by
  apply List.ext_getElem
  · simp
  · intro i _ _
    simp [same]

namespace Steim

namespace Word

/-- A buffer with the four bytes of every word in reverse; bytes after the last whole word stay. -/
def reversed : List UInt8 → List UInt8
  | a :: b :: c :: d :: rest => d :: c :: b :: a :: reversed rest
  | rest => rest

example : reversed [1, 2, 3, 4, 5, 6] = [4, 3, 2, 1, 5, 6] := rfl

theorem length_reversed (buffer : List UInt8) : (reversed buffer).length = buffer.length := by
  fun_induction reversed buffer with
  | case1 a b c d rest ih => simp only [List.length_cons, ih]
  | case2 buffer short => rfl

/-- Words that are stored in the other order are the same words. -/
theorem ofBuffer_reversed (order : ByteOrder) (buffer : List UInt8) :
    ofBuffer order.other (reversed buffer) = ofBuffer order buffer := by
  fun_induction reversed buffer with
  | case1 a b c d rest ih =>
    have first : ofStored order.other d c b a = ofStored order a b c d := by cases order <;> rfl
    rw [ofBuffer, ofBuffer, ih, first]
  | case2 buffer short =>
    -- Fewer than four bytes make no word in either order.
    rw [ofBuffer, ofBuffer]
    · exact short
    · exact short

end Word

theorem decode_reversed (e : Encoding) (buffer : List UInt8) (wanted : Nat) (order : ByteOrder) :
    decode e (Word.reversed buffer) wanted order.other = decode e buffer wanted order := by
  rw [decode, decode, Word.length_reversed, Word.ofBuffer_reversed]

end Steim

theorem ByteOrder.ofSwap_needsSwap_other (stored host machine : ByteOrder) :
    machine.ofSwap (stored.other.needsSwap host) =
      (machine.ofSwap (stored.needsSwap host)).other := by
  cases stored <;> cases host <;> cases machine <;> rfl

theorem ByteOrder.needsSwap_other_other (stored host : ByteOrder) :
    stored.other.needsSwap host.other = stored.needsSwap host := by
  cases stored <;> cases host <;> rfl

namespace Chunk

/-- The same chunk stored in the other order. -/
def transcoded (chunk : Chunk) : Chunk :=
  { chunk with
    byteOrder := chunk.byteOrder.other
    values := Steim.Word.reversed chunk.values }

/-- The same bytes under the other flag. -/
def reflagged (chunk : Chunk) : Chunk := { chunk with byteOrder := chunk.byteOrder.other }

variable (machine : ByteOrder)

theorem native_decode_transcoded (chunk : Chunk) (e : Encoding) (host : ByteOrder) :
    (Codec.native machine).decode (chunk.transcoded.call e host) =
      (Codec.native machine).decode (chunk.call e host) := by
  have order : machine.ofSwap (chunk.transcoded.byteOrder.needsSwap host) =
      (machine.ofSwap (chunk.byteOrder.needsSwap host)).other :=
    ByteOrder.ofSwap_needsSwap_other ..
  show Steim.decode e (Steim.Word.reversed chunk.values) chunk.samples
      (machine.ofSwap (chunk.transcoded.byteOrder.needsSwap host)) = _
  rw [order, Steim.decode_reversed]
  rfl

/-- The metric of a decoded chunk tells whether words were swapped; warnings do not. -/
theorem keeping_decode_transcoded (chunk : Chunk) (host : ByteOrder) :
    (chunk.transcoded.decode (.native machine) host).keeping Event.warning? =
      (chunk.decode (.native machine) host).keeping Event.warning? := by
  have compression : chunk.transcoded.compression = chunk.compression := rfl
  have samples : chunk.transcoded.samples = chunk.samples := rfl
  rw [decode, decode, compression, samples]
  cases Encoding.ofCode? chunk.compression with
  | none => rfl
  | some e =>
    dsimp only
    rw [native_decode_transcoded]
    cases ((Codec.native machine).decode (chunk.call e host)).samples with
    | error failure => rfl
    | ok samples =>
      dsimp only
      split
      · rw [Outcome.keeping_eq_iff, List.filterMap_append, List.filterMap_append]
        exact ⟨rfl, rfl⟩
      · rfl

theorem decode_reflagged (codec : Codec) (host : ByteOrder) (chunk : Chunk) :
    chunk.reflagged.decode codec host.other = chunk.decode codec host := by
  have call (e : Encoding) : chunk.reflagged.call e host.other = chunk.call e host := by
    have swap : chunk.reflagged.byteOrder.needsSwap host.other = chunk.byteOrder.needsSwap host :=
      ByteOrder.needsSwap_other_other ..
    rw [Chunk.call, Chunk.call, swap]
    rfl
  have compression : chunk.reflagged.compression = chunk.compression := rfl
  have samples : chunk.reflagged.samples = chunk.samples := rfl
  rw [decode, decode, compression, samples]
  simp only [call]

end Chunk

/-- The record with those of its chunks transcoded whose numbers are chosen. -/
def Record.transcode (chosen : Nat → Bool) (r : Record) : Record :=
  { r with
    chunks := r.chunks.mapIdx fun number chunk =>
      if chosen number then chunk.transcoded else chunk }

def Record.reflagged (r : Record) : Record := { r with chunks := r.chunks.map Chunk.reflagged }

theorem Record.keeping_transcode (machine : ByteOrder) (chosen : Nat → Bool) (host : ByteOrder)
    (r : Record) :
    ((r.transcode chosen).assemble (.native machine) host).keeping Event.warning? =
      (r.assemble (.native machine) host).keeping Event.warning? := by
  apply Eq.symm
  apply Record.keeping_assemble r
  apply Eq.symm
  apply map_mapIdx_eq_map
  intro number chunk
  split
  · exact chunk.keeping_decode_transcoded machine host
  · rfl

theorem Record.keeping_reflagged (codec : Codec) (host : ByteOrder) (r : Record) :
    (r.reflagged.assemble codec host.other).keeping some =
      (r.assemble codec host).keeping some := by
  apply Eq.symm
  apply Record.keeping_assemble r
  rw [List.map_map]
  apply List.map_congr_left
  intro chunk _
  rw [Function.comp_apply, Chunk.decode_reflagged]

namespace Assembly

/-- A batch with chosen chunks transcoded; chunks are chosen by the position of their record and
their number in it. -/
def transcode (chosen : Nat → Nat → Bool) (records : List Record) : List Record :=
  records.mapIdx fun position r => r.transcode (chosen position)

/-- The stored order of chunks is not seen in what the native codec is used to assemble: neither in
traces and failures, nor in the failure that ends a batch, nor in the warnings. For every codec,
nothing at all changes where the order of the host is exchanged together with all flags. -/
theorem storedOrder_unseen (machine : ByteOrder) (settings : Settings) (schedule : List Nat)
    (records : List Record) (chosen : Nat → Nat → Bool) :
    let native : Assembler := ⟨.native machine, settings⟩
    let original := native.assembleUnder schedule records
    let transcoded := native.assembleUnder schedule (transcode chosen records)
    transcoded.result = original.result ∧
      Event.warnings transcoded.events = Event.warnings original.events ∧
      ∀ codec, Assembler.assembleUnder ⟨codec, { settings with host := settings.host.other }⟩
          schedule (records.map Record.reflagged) =
        Assembler.assembleUnder ⟨codec, settings⟩ schedule records := by
  intro native original transcoded
  have alike : transcoded.keeping Event.warning? = original.keeping Event.warning? := by
    apply Assembler.keeping_assembleUnder rfl rfl
    · apply map_mapIdx_eq_map
      intro position r
      rfl
    · apply map_mapIdx_eq_map
      intro position r
      exact r.keeping_transcode machine (chosen position) settings.host
  obtain ⟨warnings, result⟩ := Outcome.keeping_eq_iff.1 alike
  refine ⟨result, ?_, ?_⟩
  · rw [Event.warnings_eq_filterMap, Event.warnings_eq_filterMap]
    exact warnings
  · intro codec
    apply Outcome.eq_of_keeping_some
    refine Assembler.keeping_assembleUnder ?_ ?_ ?_ ?_ schedule
    · rfl
    · rfl
    · rw [List.map_map]
      rfl
    · rw [List.map_map]
      apply List.map_congr_left
      intro r _
      exact r.keeping_reflagged codec settings.host

/-- The mixed batch with its first two records stored in the other order. -/
theorem storedOrder_unseen_mixed :
    let native : Assembler := ⟨.native .little, ⟨.little, .collectErrors, .sequential⟩⟩
    let turned := transcode (fun position _ => decide (position < 2)) mixed
    turned.map (fun r => r.chunks.map (·.byteOrder)) = [[.little], [.little], [.big], [.big]] ∧
      ∃ report, (native.assembleUnder [] turned).result = .ok report ∧
        report.traces.map (·.data) = [[1, 2, 3, 4], [1, 2, 3, 4]] ∧
        report.failures.map (fun f => (f.index, f.channel)) = [(1, "GE.APE.00.SHZ")] ∧
        report.skipped = 1 := by
  intro native turned
  obtain ⟨same, -, -⟩ := storedOrder_unseen .little native.settings [] mixed
    fun position _ => decide (position < 2)
  obtain ⟨report, assembled, parts⟩ := exists_report_mixed
  exact ⟨rfl, report, same.trans assembled, parts⟩

end Assembly
end Seismogram
