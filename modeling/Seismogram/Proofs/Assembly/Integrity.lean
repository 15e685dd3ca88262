import Mathlib.Data.List.Forall2
import Seismogram.Assembly.Record

/-!
# What comes of a record

A trace is made of whole answers or not at all. Whatever a codec answers, a chunk yields either as
many samples as it declares or a failure, and a record either the samples of all its chunks in
order, as many as it declares, or the first failure. The rules below say for every record which
calls the codec receives and what the result is; assembling follows them and no others.
-/

attribute [local instance (2000)] Zero.ofOfNat0

namespace Seismogram

variable {codec : Codec} {host : ByteOrder}

namespace Chunk

/-- The call that a chunk makes. A chunk whose compression code names no encoding makes none. -/
def calls (chunk : Chunk) (host : ByteOrder) : List Codec.Call :=
  ((Encoding.ofCode? chunk.compression).map fun e => chunk.call e host).toList

/-- What a chunk is read as: the samples that the codec answers, provided that they are as many as
the chunk declares. -/
inductive Reads (codec : Codec) (host : ByteOrder) (chunk : Chunk) :
    Except Failure (List Steim.Sample) → Prop where
  | unregistered (first : chunk.compression ≠ 10) (second : chunk.compression ≠ 11) :
      Reads codec host chunk (.error (.unknownCompression chunk.compression))
  | refused {e : Encoding} {failure : Failure} (code : chunk.compression = e.code)
      (answer : (codec.decode (chunk.call e host)).samples = .error failure) :
      Reads codec host chunk (.error failure)
  | miscounted {e : Encoding} {samples : List Steim.Sample} (code : chunk.compression = e.code)
      (answer : (codec.decode (chunk.call e host)).samples = .ok samples)
      (count : samples.length ≠ chunk.samples) :
      Reads codec host chunk (.error (.sampleCount chunk.samples samples.length))
  | answered {e : Encoding} {samples : List Steim.Sample} (code : chunk.compression = e.code)
      (answer : (codec.decode (chunk.call e host)).samples = .ok samples)
      (count : samples.length = chunk.samples) : Reads codec host chunk (.ok samples)

variable {chunk : Chunk}

theorem decode_of_unregistered (first : chunk.compression ≠ 10) (second : chunk.compression ≠ 11) :
    chunk.decode codec host = .fail (.unknownCompression chunk.compression) := by
  rw [decode, Encoding.ofCode?_eq_none_iff.2 ⟨first, second⟩]

/-- The result of a chunk of a registered compression by the answer of the codec. -/
theorem result_decode_of_code {e : Encoding} (code : chunk.compression = e.code) :
    (chunk.decode codec host).result =
      (codec.decode (chunk.call e host)).samples.bind fun samples =>
        if samples.length = chunk.samples then .ok samples
        else .error (.sampleCount chunk.samples samples.length) := by
  rw [decode, code, Encoding.ofCode?_code]
  dsimp only
  cases (codec.decode (chunk.call e host)).samples with
  | error failure => rfl
  | ok samples =>
    dsimp only [Except.bind]
    split <;> rfl

theorem Reads.result_eq {result : Except Failure (List Steim.Sample)}
    (h : chunk.Reads codec host result) : (chunk.decode codec host).result = result := by
  cases h with
  | unregistered first second =>
    rw [decode_of_unregistered first second]
    rfl
  | refused code answer =>
    rw [result_decode_of_code code, answer]
    rfl
  | miscounted code answer count =>
    rw [result_decode_of_code code, answer]
    exact if_neg count
  | answered code answer count =>
    rw [result_decode_of_code code, answer]
    exact if_pos count

theorem reads_decode (codec : Codec) (host : ByteOrder) (chunk : Chunk) :
    chunk.Reads codec host (chunk.decode codec host).result := by
  cases registered : Encoding.ofCode? chunk.compression with
  | none =>
    obtain ⟨first, second⟩ := Encoding.ofCode?_eq_none_iff.1 registered
    rw [decode_of_unregistered first second]
    exact .unregistered first second
  | some e =>
    have code := Encoding.ofCode?_eq_some_iff.1 registered
    rw [result_decode_of_code code]
    cases answer : (codec.decode (chunk.call e host)).samples with
    | error failure => exact .refused code answer
    | ok samples =>
      by_cases count : samples.length = chunk.samples
      · simp only [Except.bind, if_pos count]
        exact .answered code answer count
      · simp only [Except.bind, if_neg count]
        exact .miscounted code answer count

theorem reads_iff {result : Except Failure (List Steim.Sample)} :
    chunk.Reads codec host result ↔ (chunk.decode codec host).result = result := by
  constructor
  · exact Reads.result_eq
  · rintro rfl
    exact reads_decode codec host chunk

theorem calls_decode (codec : Codec) (host : ByteOrder) (chunk : Chunk) :
    Event.calls (chunk.decode codec host).events = chunk.calls host := by
  rw [decode, calls]
  cases Encoding.ofCode? chunk.compression with
  | none => rfl
  | some e =>
    -- In each case the call comes first, and nothing but log lines follow it.
    have called : Event.calls (.decode (chunk.call e host) ::
        (codec.decode (chunk.call e host)).lines.map .line) = [chunk.call e host] :=
      congrArg (chunk.call e host :: ·) (Event.calls_map_line _)
    dsimp only
    split
    · exact called
    · split
      · exact (Event.calls_append ..).trans (called ▸ List.append_nil _)
      · exact called

end Chunk

/-! ### Chunks one after another -/

section Chunks

variable {chunks : List Chunk}

/-- All chunks are read as the parts of a list. -/
abbrev Chunk.ReadAs (codec : Codec) (host : ByteOrder) (chunks : List Chunk)
    (parts : List (List Steim.Sample)) : Prop :=
  List.Forall₂ (fun chunk part => chunk.Reads codec host (.ok part)) chunks parts

theorem Chunk.ReadAs.length_flatten {parts : List (List Steim.Sample)}
    (h : Chunk.ReadAs codec host chunks parts) :
    parts.flatten.length = (chunks.map Chunk.samples).sum := by
  induction h with
  | nil => rfl
  | cons first _ ih =>
    have count := Chunk.length_of_decode (Chunk.reads_iff.1 first)
    rw [List.flatten_cons, List.length_append, count, ih, List.map_cons, List.sum_cons]

/-- After a chunk that is read, decoding goes on with the chunks behind it. -/
theorem Chunk.decodeAll_cons {chunk : Chunk} {part : List Steim.Sample}
    (read : chunk.Reads codec host (.ok part)) (rest : List Chunk) :
    (decodeAll codec host (chunk :: rest)).result =
        (decodeAll codec host rest).result.map (part ++ ·) ∧
      Event.calls (decodeAll codec host (chunk :: rest)).events =
        chunk.calls host ++ Event.calls (decodeAll codec host rest).events := by
  rw [decodeAll, Outcome.bind_of_ok read.result_eq, Event.calls_append, calls_decode]
  cases others : (decodeAll codec host rest).result with
  | error failure =>
    rw [Outcome.bind_of_error others]
    exact ⟨rfl, rfl⟩
  | ok more =>
    rw [Outcome.bind_pure_of_ok others]
    exact ⟨rfl, rfl⟩

theorem Chunk.decodeAll_append {front : List Chunk} {parts : List (List Steim.Sample)}
    (h : Chunk.ReadAs codec host front parts) (back : List Chunk) :
    (decodeAll codec host (front ++ back)).result =
        (decodeAll codec host back).result.map (parts.flatten ++ ·) ∧
      Event.calls (decodeAll codec host (front ++ back)).events =
        front.flatMap (calls · host) ++ Event.calls (decodeAll codec host back).events := by
  induction h with
  | nil =>
    refine ⟨?_, rfl⟩
    rw [List.nil_append]
    cases (decodeAll codec host back).result <;> rfl
  | @cons chunk part rest parts first _ ih =>
    obtain ⟨result, calls⟩ := decodeAll_cons first (rest ++ back)
    rw [List.cons_append, result, calls, ih.1, ih.2, List.flatMap_cons, List.append_assoc]
    refine ⟨?_, rfl⟩
    cases (decodeAll codec host back).result with
    | error failure => rfl
    | ok more => exact congrArg Except.ok (List.append_assoc ..).symm

theorem Chunk.decodeAll_of_readAs {parts : List (List Steim.Sample)}
    (h : Chunk.ReadAs codec host chunks parts) :
    (decodeAll codec host chunks).result = .ok parts.flatten ∧
      Event.calls (decodeAll codec host chunks).events = chunks.flatMap (calls · host) := by
  obtain ⟨result, calls⟩ := decodeAll_append h []
  rw [List.append_nil] at result calls
  refine ⟨result.trans ?_, calls.trans (List.append_nil _)⟩
  exact congrArg Except.ok (List.append_nil _)

/-- The first chunk that fails is the last to be decoded. -/
theorem Chunk.decodeAll_of_failure {front : List Chunk} {parts : List (List Steim.Sample)}
    {chunk : Chunk} {failure : Failure} (h : Chunk.ReadAs codec host front parts)
    (failed : chunk.Reads codec host (.error failure)) (back : List Chunk) :
    (decodeAll codec host (front ++ chunk :: back)).result = .error failure ∧
      Event.calls (decodeAll codec host (front ++ chunk :: back)).events =
        (front ++ [chunk]).flatMap (calls · host) := by
  obtain ⟨result, calls⟩ := decodeAll_append h (chunk :: back)
  rw [decodeAll, Outcome.bind_of_error failed.result_eq] at result calls
  refine ⟨result, calls.trans ?_⟩
  rw [calls_decode, List.flatMap_append, List.flatMap_singleton]

theorem Chunk.readAs_or_failure (codec : Codec) (host : ByteOrder) (chunks : List Chunk) :
    (∃ parts, Chunk.ReadAs codec host chunks parts) ∨
      ∃ front parts chunk back failure, chunks = front ++ chunk :: back ∧
        Chunk.ReadAs codec host front parts ∧ chunk.Reads codec host (.error failure) := by
  induction chunks with
  | nil => exact .inl ⟨[], .nil⟩
  | cons first rest ih =>
    have reads := reads_decode codec host first
    cases answer : (first.decode codec host).result with
    | error failure =>
      rw [answer] at reads
      exact .inr ⟨[], [], first, rest, failure, rfl, .nil, reads⟩
    | ok part =>
      rw [answer] at reads
      obtain ⟨parts, others⟩ | ⟨front, parts, chunk, back, failure, rfl, others, failed⟩ := ih
      · exact .inl ⟨part :: parts, .cons reads others⟩
      · exact .inr ⟨first :: front, part :: parts, chunk, back, failure, rfl,
          .cons reads others, failed⟩

end Chunks

/-! ### Records -/

/-- A trace that stands for all of a record: it carries the record's codes and start, and as many
samples as the record declares. -/
structure Trace.StandsFor (t : Trace) (r : Record) : Prop where
  network : t.network = r.channel.network
  station : t.station = r.channel.station
  location : t.location = Text.trimEnd r.channel.site
  channel : t.channel = r.channel.channel
  id : t.id = r.channel.text
  start : t.start = r.start
  samples : t.samples = r.samples
  length : t.data.length = t.samples
  verified : t.verify = .ok ()

namespace Record

theorem standsFor_trace {r : Record} {data : List Steim.Sample} (rate : Float)
    (complete : data.length = r.samples) : (r.trace rate data).StandsFor r where
  network := rfl
  station := rfl
  location := rfl
  channel := rfl
  id := id_trace r rate data
  start := rfl
  samples := rfl
  length := complete
  verified := Trace.verify_eq_ok_iff.2 complete

/-- The codec calls that a record makes and what it is assembled into. The causes of a failure are
looked for in the order of these rules. -/
inductive Assembles (codec : Codec) (host : ByteOrder) (r : Record) :
    List Codec.Call → Except Failure (Option Trace) → Prop where
  | keepAlive (samples : r.samples = 0) : Assembles codec host r [] (.ok none)
  | rate {failure : Failure} (samples : r.samples ≠ 0)
      (unresolved : r.interval.rate r.samples = .error failure) :
      Assembles codec host r [] (.error failure)
  | chunk {rate : Float} {front back : List Chunk} {parts : List (List Steim.Sample)}
      {chunk : Chunk} {failure : Failure} (samples : r.samples ≠ 0)
      (resolved : r.interval.rate r.samples = .ok rate)
      (chunks : r.chunks = front ++ chunk :: back) (read : Chunk.ReadAs codec host front parts)
      (failed : chunk.Reads codec host (.error failure)) :
      Assembles codec host r ((front ++ [chunk]).flatMap (Chunk.calls · host)) (.error failure)
  | total {rate : Float} {parts : List (List Steim.Sample)} (samples : r.samples ≠ 0)
      (resolved : r.interval.rate r.samples = .ok rate)
      (read : Chunk.ReadAs codec host r.chunks parts)
      (declared : (r.chunks.map Chunk.samples).sum ≠ r.samples) :
      Assembles codec host r (r.chunks.flatMap (Chunk.calls · host))
        (.error (.sampleCount r.samples (r.chunks.map Chunk.samples).sum))
  | trace {rate : Float} {parts : List (List Steim.Sample)} (samples : r.samples ≠ 0)
      (resolved : r.interval.rate r.samples = .ok rate)
      (read : Chunk.ReadAs codec host r.chunks parts)
      (declared : (r.chunks.map Chunk.samples).sum = r.samples) :
      Assembles codec host r (r.chunks.flatMap (Chunk.calls · host))
        (.ok (some (r.trace rate parts.flatten)))

variable {r : Record}

theorem assemble_of_samples (samples : r.samples ≠ 0) :
    r.assemble codec host =
      Outcome.ofResult (r.interval.rate r.samples) >>= fun rate =>
        Chunk.decodeAll codec host r.chunks >>= fun data =>
          Outcome.ofResult (r.trace rate data).verify >>= fun _ =>
            Outcome.emit (.line (r.metric rate)) >>= fun _ => pure (some (r.trace rate data)) := by
  rw [assemble, if_neg (fun keepAlive => samples (isKeepAlive_iff.1 keepAlive))]

/-- The samples of the chunks become a trace if they are as many as the record declares. -/
theorem assemble_of_decoded (samples : r.samples ≠ 0) {rate : Float}
    (resolved : r.interval.rate r.samples = .ok rate) {data : List Steim.Sample}
    (decoded : (Chunk.decodeAll codec host r.chunks).result = .ok data) :
    (r.assemble codec host).result =
        (if data.length = r.samples then .ok (some (r.trace rate data))
        else .error (.sampleCount r.samples data.length)) ∧
      Event.calls (r.assemble codec host).events =
        Event.calls (Chunk.decodeAll codec host r.chunks).events := by
  rw [assemble_of_samples samples, resolved, Outcome.bind_of_ok rfl, Outcome.bind_of_ok decoded]
  by_cases complete : data.length = r.samples
  · have verified : (r.trace rate data).verify = .ok () := Trace.verify_eq_ok_iff.2 complete
    rw [verified, if_pos complete]
    refine ⟨rfl, ?_⟩
    exact (Event.calls_append (Chunk.decodeAll codec host r.chunks).events _).trans
      (List.append_nil _)
  · have refused : (r.trace rate data).verify = .error (.sampleCount r.samples data.length) :=
      if_neg complete
    rw [refused, if_neg complete]
    refine ⟨rfl, ?_⟩
    exact (Event.calls_append (Chunk.decodeAll codec host r.chunks).events _).trans
      (List.append_nil _)

/-- A failure of the rate or of a chunk is the failure of the record. -/
theorem assemble_of_rateFailure (samples : r.samples ≠ 0) {failure : Failure}
    (unresolved : r.interval.rate r.samples = .error failure) :
    r.assemble codec host = ⟨[], .error failure⟩ := by
  rw [assemble_of_samples samples, unresolved, Outcome.bind_of_error rfl]
  rfl

theorem assemble_of_chunkFailure (samples : r.samples ≠ 0) {rate : Float}
    (resolved : r.interval.rate r.samples = .ok rate) {failure : Failure}
    (failed : (Chunk.decodeAll codec host r.chunks).result = .error failure) :
    r.assemble codec host = ⟨(Chunk.decodeAll codec host r.chunks).events, .error failure⟩ := by
  rw [assemble_of_samples samples, resolved, Outcome.bind_of_ok rfl, Outcome.bind_of_error failed]
  rfl

theorem Assembles.outcome {calls : List Codec.Call} {result : Except Failure (Option Trace)}
    (h : r.Assembles codec host calls result) :
    Event.calls (r.assemble codec host).events = calls ∧
      (r.assemble codec host).result = result := by
  cases h with
  | keepAlive samples =>
    rw [assemble_of_keepAlive samples]
    exact ⟨rfl, rfl⟩
  | rate samples unresolved =>
    rw [assemble_of_rateFailure samples unresolved]
    exact ⟨rfl, rfl⟩
  | chunk samples resolved chunks read failed =>
    obtain ⟨result, calls⟩ := Chunk.decodeAll_of_failure read failed _
    rw [← chunks] at result calls
    rw [assemble_of_chunkFailure samples resolved result]
    exact ⟨calls, rfl⟩
  | total samples resolved read declared =>
    obtain ⟨decoded, calls⟩ := Chunk.decodeAll_of_readAs read
    obtain ⟨result, same⟩ := assemble_of_decoded samples resolved decoded
    rw [result, same, read.length_flatten, if_neg declared]
    exact ⟨calls, rfl⟩
  | trace samples resolved read declared =>
    obtain ⟨decoded, calls⟩ := Chunk.decodeAll_of_readAs read
    obtain ⟨result, same⟩ := assemble_of_decoded samples resolved decoded
    rw [result, same, read.length_flatten, if_pos declared]
    exact ⟨calls, rfl⟩

theorem exists_assembles (codec : Codec) (host : ByteOrder) (r : Record) :
    ∃ calls result, r.Assembles codec host calls result := by
  by_cases samples : r.samples = 0
  · exact ⟨_, _, .keepAlive samples⟩
  cases resolved : r.interval.rate r.samples with
  | error failure => exact ⟨_, _, .rate samples resolved⟩
  | ok rate =>
    obtain ⟨parts, read⟩ | ⟨front, parts, chunk, back, failure, chunks, read, failed⟩ :=
      Chunk.readAs_or_failure codec host r.chunks
    · by_cases declared : (r.chunks.map Chunk.samples).sum = r.samples
      · exact ⟨_, _, .trace samples resolved read declared⟩
      · exact ⟨_, _, .total samples resolved read declared⟩
    · exact ⟨_, _, .chunk samples resolved chunks read failed⟩

theorem assembles_iff {calls : List Codec.Call} {result : Except Failure (Option Trace)} :
    r.Assembles codec host calls result ↔
      Event.calls (r.assemble codec host).events = calls ∧
        (r.assemble codec host).result = result := by
  constructor
  · exact Assembles.outcome
  · rintro ⟨rfl, rfl⟩
    obtain ⟨calls, result, applies⟩ := exists_assembles codec host r
    obtain ⟨rfl, rfl⟩ := applies.outcome
    exact applies

/-- What comes of a record, whatever the codec answers. It is none exactly if the record has no
samples. It is a trace exactly if the rate is resolved, every chunk has a registered compression
and is answered with as many samples as it declares, and the declared counts add up to that of the
record; the trace then holds the answers in the order of the chunks, and stands for all of the
record. Otherwise it is the failure of the first rule that applies; and the codec receives just the
calls that the rule names. -/
theorem assemble_allOrNothing (codec : Codec) (host : ByteOrder) (r : Record) :
    let outcome := r.assemble codec host
    (outcome.result = .ok none ↔ r.samples = 0) ∧
      (∀ t, outcome.result = .ok (some t) ↔
        r.samples ≠ 0 ∧ ∃ rate parts, r.interval.rate r.samples = .ok rate ∧
          List.Forall₂ (fun chunk part => chunk.Reads codec host (.ok part)) r.chunks parts ∧
          (r.chunks.map Chunk.samples).sum = r.samples ∧ t = r.trace rate parts.flatten) ∧
      (∀ t, outcome.result = .ok (some t) → t.StandsFor r) ∧
      ∀ calls result, r.Assembles codec host calls result ↔
        Event.calls outcome.events = calls ∧ outcome.result = result := by
  intro outcome
  have complete : ∀ t, outcome.result = .ok (some t) ↔
      r.samples ≠ 0 ∧ ∃ rate parts, r.interval.rate r.samples = .ok rate ∧
        Chunk.ReadAs codec host r.chunks parts ∧
        (r.chunks.map Chunk.samples).sum = r.samples ∧ t = r.trace rate parts.flatten := by
    intro t
    constructor
    · intro assembled
      obtain ⟨calls, applies⟩ : ∃ calls, r.Assembles codec host calls (.ok (some t)) :=
        ⟨_, assembles_iff.2 ⟨rfl, assembled⟩⟩
      cases applies with
      | trace samples resolved read declared =>
        exact ⟨samples, _, _, resolved, read, declared, rfl⟩
    · rintro ⟨samples, rate, parts, resolved, read, declared, rfl⟩
      exact (Assembles.trace samples resolved read declared).outcome.2
  refine ⟨result_assemble_eq_none_iff, complete, ?_, fun calls result => assembles_iff⟩
  intro t assembled
  obtain ⟨-, rate, parts, -, read, declared, rfl⟩ := (complete t).1 assembled
  exact standsFor_trace rate (read.length_flatten.trans declared)

/-- Four samples in a chunk of each encoding, stored in different orders. -/
def inTwoChunks : Record :=
  ⟨⟨"GE", "APE", "00 ", "SHZ"⟩, (Time.Instant.ofUnix? 1056067200 0).get rfl, 4,
    ⟨0.08, .second, 0, 1.0, 1⟩, [⟨10, .big, 2, []⟩, ⟨11, .little, 2, [0]⟩]⟩

/-- A codec that answers two samples to any call, by the encoding alone. -/
def answeringTwo : Codec :=
  ⟨fun call => ⟨[], .ok (if call.encoding = .steim1 then [1, 2] else [3, 4])⟩⟩

theorem exists_rate_inTwoChunks :
    ∃ rate, inTwoChunks.interval.rate inTwoChunks.samples = .ok rate := by
  have finite : (inTwoChunks.interval.rate inTwoChunks.samples).isOk = true := by decide +kernel
  cases h : inTwoChunks.interval.rate inTwoChunks.samples with
  | ok rate => exact ⟨rate, rfl⟩
  | error failure => simp [h, Except.isOk, Except.toBool] at finite

theorem assemble_inTwoChunks :
    ∃ t, (inTwoChunks.assemble answeringTwo .little).result = .ok (some t) ∧
      t.StandsFor inTwoChunks ∧ t.data = [1, 2, 3, 4] := by
  obtain ⟨-, complete, whole, -⟩ := assemble_allOrNothing answeringTwo .little inTwoChunks
  obtain ⟨rate, resolved⟩ := exists_rate_inTwoChunks
  have read : Chunk.ReadAs answeringTwo .little inTwoChunks.chunks [[1, 2], [3, 4]] :=
    .cons (.answered (e := .steim1) rfl rfl rfl) (.cons (.answered (e := .steim2) rfl rfl rfl) .nil)
  have assembled := (complete _).2 ⟨by decide, rate, _, resolved, read, rfl, rfl⟩
  exact ⟨_, assembled, whole _ assembled, rfl⟩

end Record
end Seismogram
