import Mathlib.Logic.Relation
import Treewalk.Evaluator
import Treewalk.Proofs.Eval.Sequence
import Treewalk.Proofs.Output.Noted
import Treewalk.Proofs.Simulation.Resources

/-!
# Sinks that run out of room

Two runs of a program, one on a sink with room for so many bytes and one on an unlimited sink, are
the same run as long as what they write fits. The first write that does not fit ends the first run:
its sink holds just as many bytes as it had room for, the beginning of what the unlimited sink
holds in the end, its error names the line of that write, and its scopes are those that the other
run had at that write. What the other run does from there on is done by it alone
(`bounded_sink_prefix`).
-/

set_option autoImplicit false
set_option relaxedAutoImplicit false

namespace Treewalk

/-! ### Limited sinks -/

namespace Sink

theorem output_eq (sink : Sink) : sink.output = sink.chunks.toList.flatMap Chunk.bytes := by
  rw [output, outputFrom, List.drop_zero]

/-- Two sinks that were written the same, one of them with room for `capacity` bytes in all and the
other unlimited. -/
structure Limits (capacity : Nat) (refusal : Refusal) (limited unlimited : Sink) : Prop where
  chunks : limited.chunks = unlimited.chunks
  room : limited.room = some (capacity - unlimited.output.length)
  fits : unlimited.output.length ≤ capacity
  refusal : limited.refusal = refusal
  flushFailure : limited.flushFailure = unlimited.flushFailure
  unbounded : unlimited.room = none

/-- The write with the byte at a position was cut there on its way to one sink, which was written
nothing after it. To the other sink it was written as a whole, and perhaps more after it. -/
structure CutAt (position : Nat) (chunk : Chunk) (limited unlimited : Sink) : Prop where
  unbounded : unlimited.room = none
  chunks : ∃ before after, unlimited.chunks.toList = before ++ chunk :: after ∧
    (before.flatMap Chunk.bytes).length ≤ position ∧
    position < (before.flatMap Chunk.bytes).length + chunk.bytes.length ∧
    limited.chunks.toList =
      before ++ [⟨chunk.line, chunk.bytes.take (position - (before.flatMap Chunk.bytes).length)⟩]

variable {capacity : Nat} {refusal : Refusal} {limited unlimited : Sink} {chunk : Chunk}

theorem toList_chunks_write (sink : Sink) (line : Line) (bytes : List UInt8) :
    (sink.write line bytes).chunks.toList = sink.chunks.toList ++ [⟨line, sink.fitting bytes⟩] :=
  Array.toList_push

theorem fitting_of_room_eq_none {sink : Sink} (hroom : sink.room = none) (bytes : List UInt8) :
    sink.fitting bytes = bytes := by
  rw [fitting, hroom]

theorem Limits.fits_iff (h : Limits capacity refusal limited unlimited) (bytes : List UInt8) :
    limited.fits bytes = true ↔ unlimited.output.length + bytes.length ≤ capacity := by
  have hfits := h.fits
  rw [Sink.fits, h.room]
  simp only [decide_eq_true_eq]
  omega

/-- A write that fits is the same on both sinks. -/
theorem Limits.write (h : Limits capacity refusal limited unlimited) (line : Line)
    {bytes : List UInt8} (hfits : limited.fits bytes = true) :
    Limits capacity refusal (limited.write line bytes) (unlimited.write line bytes) := by
  have hlength : (unlimited.write line bytes).output.length =
      unlimited.output.length + bytes.length := by
    rw [output_write, fitting_of_room_eq_none h.unbounded, List.length_append]
  have hroom := (h.fits_iff bytes).mp hfits
  have hwhole : limited.fitting bytes = unlimited.fitting bytes := by
    rw [fitting_of_room_eq_none h.unbounded, fitting, h.room]
    exact List.take_of_length_le (by omega)
  refine ⟨?_, ?_, hlength ▸ hroom, h.refusal, h.flushFailure, ?_⟩
  · rw [Sink.write, Sink.write, h.chunks, hwhole]
  · rw [hlength, Sink.write, h.room, Option.map_some, Nat.sub_sub]
  · rw [Sink.write, h.unbounded, Option.map_none]

/-- A write that does not fit is cut where the room ends. -/
theorem Limits.cutAt (h : Limits capacity refusal limited unlimited) (line : Line)
    {bytes : List UInt8} (hfits : ¬ limited.fits bytes = true) :
    CutAt capacity ⟨line, bytes⟩ (limited.write line bytes) (unlimited.write line bytes) := by
  have hlong : ¬ unlimited.output.length + bytes.length ≤ capacity := fun hroom ↦
    hfits ((h.fits_iff bytes).mpr hroom)
  have hroom := h.fits
  have houtput := unlimited.output_eq
  refine ⟨?_, unlimited.chunks.toList, [], ?_, ?_, ?_, ?_⟩
  · rw [Sink.write, h.unbounded, Option.map_none]
  · rw [toList_chunks_write, fitting_of_room_eq_none h.unbounded]
  · rwa [← houtput]
  · rw [← houtput]
    exact Nat.lt_of_not_le hlong
  · rw [toList_chunks_write, h.chunks, fitting, h.room, houtput]

/-- What is written later to the other sink alone does not move the cut. -/
theorem CutAt.write (h : CutAt capacity chunk limited unlimited) (line : Line)
    (bytes : List UInt8) : CutAt capacity chunk limited (unlimited.write line bytes) := by
  obtain ⟨before, after, hunlimited, hbefore, hposition, hlimited⟩ := h.chunks
  refine ⟨?_, before, after ++ [⟨line, unlimited.fitting bytes⟩], ?_, hbefore, hposition,
    hlimited⟩
  · rw [Sink.write, h.unbounded, Option.map_none]
  · rw [toList_chunks_write, hunlimited, List.append_assoc, List.cons_append]

/-- The limited sink holds the beginning of what the other holds. -/
theorem CutAt.output (h : CutAt capacity chunk limited unlimited) :
    limited.output = unlimited.output.take capacity ∧ capacity < unlimited.output.length := by
  obtain ⟨before, after, hunlimited, hbefore, hposition, hlimited⟩ := h.chunks
  rw [output_eq, output_eq, hunlimited, hlimited]
  simp only [List.flatMap_append, List.flatMap_cons, List.flatMap_nil, List.append_nil]
  constructor
  · have hinside : capacity - (before.flatMap Chunk.bytes).length ≤ chunk.bytes.length := by omega
    rw [List.take_append, List.take_of_length_le hbefore, List.take_append_of_le_length hinside]
  · simp only [List.length_append]
    omega

end Sink

/-! ### Runs on both sinks -/

/-- One operation on scopes. -/
inductive Scopes.Change {S : Type} [Scopes S] (scopes : S) : S → Prop
  | openFrame (outer : Option FrameId) : Change scopes (Scopes.openFrame scopes outer).2
  | declare (env : FrameId) (name : String) (binding : Binding) :
    Change scopes (Scopes.declare scopes env name binding)
  | assign (env : FrameId) (name : String) (value : Value) :
    Change scopes (Scopes.assign scopes env name value)
  | declareFunction (env : FrameId) (function : Function) :
    Change scopes (Scopes.declareFunction scopes env function)

/-- Operations on the first scopes lead to the second. -/
abbrev Scopes.LeadsTo {S : Type} [Scopes S] : S → S → Prop :=
  Relation.ReflTransGen Scopes.Change

variable {S α : Type} [Scopes S]

/-- Both runs have done the same so far, and the second has a note for each of its writes. -/
structure InStep (capacity : Nat) (refusal : Refusal) (s : State S) (t : State (Noted S)) :
    Prop where
  scopes : s.scopes = t.scopes.scopes
  depth : s.depth = t.depth
  sink : s.sink.Limits capacity refusal t.sink
  notes : t.scopes.notes.length = t.sink.chunks.size

/-- The first run was refused its last write, in the scopes that the second noted at that write. -/
structure Refused (capacity : Nat) (chunk : Chunk) (s : State S) (t : State (Noted S)) :
    Prop where
  cut : s.sink.CutAt capacity chunk t.sink
  note : t.scopes.notes[s.sink.chunks.size - 1]? = some s.scopes
  leads : Scopes.LeadsTo s.scopes t.scopes.scopes

variable {capacity : Nat} {refusal : Refusal}

/-- The write that is refused has the last of the notes. -/
theorem InStep.refused {s : State S} {t : State (Noted S)} (h : InStep capacity refusal s t)
    (line : Line) {text : String} (hfits : ¬ s.sink.fits (utf8 text) = true) :
    Refused capacity ⟨line, utf8 text⟩ (EvalM.write line text s).2
      (EvalM.noting line text t).2 where
  cut := h.sink.cutAt line hfits
  note := by
    simp [EvalM.noting, EvalM.write_apply, State.note, Sink.write, h.sink.chunks, ← h.notes,
      h.scopes]
  leads := by
    simp only [EvalM.noting, EvalM.write_apply, State.note, h.scopes]
    exact .refl

namespace Simulation

variable {limit stage : Nat} {post : Nat → α → α → Prop}

/-- A run on a limited sink and one on an unlimited sink that is noted, until the first is refused a
write. -/
def limiting (capacity : Nat) (refusal : Refusal) : Simulation S (Noted S) where
  linked _ s t := InStep capacity refusal s t
  parted _ stop s t := ∃ chunk : Chunk, stop = .error ⟨.output refusal.message, chunk.line⟩ ∧
    Refused capacity chunk s t
  ends _ := True
  site _ env env' := env' = env
  home _ env env' := env' = env

/-- Computations that do the same to the scopes, and neither look at the sink nor write to it. -/
theorem limiting_matches {first : EvalM S α} {second : EvalM (Noted S) α} {change : S → S}
    (houtcome : ∀ s t, s.scopes = t.scopes.scopes → (first s).1 = (second t).1)
    (hfirst : ∀ s, (first s).2 = { s with scopes := change s.scopes })
    (hsecond : ∀ t, (second t).2 = { t with scopes := t.scopes.map change })
    (hchange : ∀ scopes, Scopes.LeadsTo scopes (change scopes))
    (hpost : ∀ result, post stage result result) :
    (limiting capacity refusal).Matches stage post first second where
  together s t hlinked := by
    have hright : second t = ((second t).1, { t with scopes := t.scopes.map change }) :=
      Prod.ext rfl (hsecond t)
    have hleft : first s = ((second t).1, { s with scopes := change s.scopes }) :=
      Prod.ext (houtcome s t hlinked.scopes) (hfirst s)
    rw [hright, hleft]
    exact .alike { hlinked with scopes := congrArg change hlinked.scopes } fun result _ ↦
      hpost result
  alone stop s t hparted := by
    obtain ⟨chunk, hstop, hrefused⟩ := hparted
    refine ⟨stage, Nat.le_refl stage, ⟨chunk, hstop, ?_⟩, fun result _ ↦ ⟨result, hpost result⟩,
      fun _ _ ↦ trivial⟩
    rw [hsecond]
    exact { hrefused with leads := hrefused.leads.trans (hchange t.scopes.scopes) }

theorem limiting_write (line : Line) (text : String) :
    (limiting capacity refusal : Simulation S (Noted S)).Agrees stage (EvalM.write line text)
      (EvalM.noting line text) where
  together s t hlinked := by
    have hwhole : t.note.sink.fits (utf8 text) = true := by
      rw [Sink.fits, State.note, hlinked.sink.unbounded]
    rw [EvalM.noting, EvalM.write_apply, EvalM.write_apply, if_pos hwhole]
    by_cases hfits : s.sink.fits (utf8 text) = true
    · rw [if_pos hfits]
      have hnotes : t.note.scopes.notes.length = (t.sink.write line (utf8 text)).chunks.size := by
        simp [State.note, Sink.write, hlinked.notes]
      exact .completed (Nat.le_refl stage)
        ⟨hlinked.scopes, hlinked.depth, hlinked.sink.write line hfits, hnotes⟩ rfl
    · rw [if_neg hfits, hlinked.sink.refusal]
      exact .parted ⟨stage, Nat.le_refl stage,
        ⟨⟨line, utf8 text⟩, rfl, hlinked.refused line hfits⟩, fun _ _ ↦ ⟨(), rfl⟩,
        fun _ _ ↦ trivial⟩
  alone stop s t hparted := by
    obtain ⟨chunk, hstop, hrefused⟩ := hparted
    have hnote : t.note.scopes.notes[s.sink.chunks.size - 1]? = some s.scopes :=
      (List.getElem?_append_left (List.getElem?_eq_some_iff.mp hrefused.note).1).trans hrefused.note
    exact ⟨stage, Nat.le_refl stage,
      ⟨chunk, hstop, hrefused.cut.write line _, hnote, hrefused.leads⟩,
      fun _ _ ↦ ⟨(), rfl⟩, fun _ _ ↦ trivial⟩

theorem limiting_levels (limit : Nat) :
    (limiting capacity refusal : Simulation S (Noted S)).Levels limit limit where
  enter hlinked hroom :=
    ⟨hlinked.depth ▸ hroom, { hlinked with depth := congrArg (· + 1) hlinked.depth }⟩
  refuse _ hlinked hfull := .inl ⟨rfl, hlinked.depth ▸ hfull⟩
  leave hlinked := { hlinked with depth := congrArg (· - 1) hlinked.depth }
  leave_first := fun ⟨chunk, hstop, hrefused⟩ ↦ ⟨chunk, hstop, { hrefused with }⟩
  move_second _ := fun ⟨chunk, hstop, hrefused⟩ ↦ ⟨chunk, hstop, { hrefused with }⟩
  ends _ := trivial

theorem limiting_isSoundWith (limit : Nat) :
    (limiting capacity refusal : Simulation S (Noted S)).IsSoundWith (EvalM.deeper limit)
      (EvalM.deeper limit) EvalM.noting where
  site_mono _ hsite := hsite
  home_mono _ hhome := hhome
  site_of_home hhome := hhome
  read name line hsite := by
    obtain rfl := hsite
    exact limiting_matches (fun s t hscopes ↦ EvalM.read_congr (by rw [hscopes]; rfl) line)
      (EvalM.read_state _ name line) (EvalM.read_state _ name line) (fun _ ↦ .refl) fun _ ↦ rfl
  resolve name count line hsite := by
    obtain rfl := hsite
    exact limiting_matches
      (fun s t hscopes ↦ EvalM.resolve_congr (by rw [hscopes]; rfl) count line)
      (EvalM.resolve_state _ name count line) (EvalM.resolve_state _ name count line)
      (fun _ ↦ .refl) fun _ ↦ ⟨rfl, rfl⟩
  openFrame hsite := by
    obtain rfl := hsite
    refine limiting_matches (fun s t hscopes ↦ ?_) (fun _ ↦ rfl) (fun _ ↦ rfl)
      (fun scopes ↦ .single (.openFrame _)) fun _ ↦ rfl
    rw [EvalM.openFrame, EvalM.openFrame, hscopes]
    rfl
  assign name value hhome := by
    obtain rfl := hhome
    exact limiting_matches (fun _ _ _ ↦ rfl) (fun _ ↦ rfl) (fun _ ↦ rfl)
      (fun scopes ↦ .single (.assign _ name value)) fun _ ↦ rfl
  declare name binding hhome := by
    obtain rfl := hhome
    exact limiting_matches (fun _ _ _ ↦ rfl) (fun _ ↦ rfl) (fun _ ↦ rfl)
      (fun scopes ↦ .single (.declare _ name binding)) fun _ ↦ rfl
  declareFunction function hhome := by
    obtain rfl := hhome
    exact limiting_matches (fun _ _ _ ↦ rfl) (fun _ ↦ rfl) (fun _ ↦ rfl)
      (fun scopes ↦ .single (.declareFunction _ function)) fun _ ↦ rfl
  write _ line text := limiting_write line text
  entered line h := h.deeper (limiting_levels limit) line
  fault _ _ _ := trivial
  outOfFuel := trivial

end Simulation

/-! ### The two parts of a print -/

namespace Sink

variable (sink : Sink) (line : Line) (first second : List UInt8)

theorem fits_append :
    sink.fits (first ++ second) = (sink.fits first && (sink.write line first).fits second) := by
  cases hroom : sink.room with
  | none => simp [fits, write, hroom]
  | some room =>
    simp only [fits, write, hroom, Option.map_some, List.length_append]
    by_cases hfirst : first.length ≤ room
    · have hrest : first.length + second.length ≤ room ↔ second.length ≤ room - first.length := by
        omega
      simp [hfirst, hrest]
    · have hlong : ¬ first.length + second.length ≤ room := by omega
      simp [hfirst, hlong]

/-- Bytes written in two parts come to the same as in one. -/
theorem write_write :
    ((sink.write line first).write line second).output =
        (sink.write line (first ++ second)).output ∧
      ((sink.write line first).write line second).room =
        (sink.write line (first ++ second)).room := by
  rw [output_write, output_write, output_write, List.append_assoc]
  cases hroom : sink.room with
  | none => simp [fitting, write, hroom]
  | some room => simp [fitting, write, hroom, List.take_append, Nat.sub_sub]

/-- After bytes that do not fit there is no room for more. -/
theorem write_of_not_fits (hfits : ¬ sink.fits first = true) :
    (sink.write line first).output = (sink.write line (first ++ second)).output ∧
      (sink.write line first).room = (sink.write line (first ++ second)).room := by
  rw [output_write, output_write]
  cases hroom : sink.room with
  | none => simp [fits, hroom] at hfits
  | some room =>
    have hfull : room - first.length = 0 := by
      simp [fits, hroom] at hfits
      omega
    have hfull' : room - (first.length + second.length) = 0 := by omega
    simp [fitting, write, hroom, List.take_append, hfull, hfull']

end Sink

theorem utf8_append (first second : String) :
    utf8 (first ++ second) = utf8 first ++ utf8 second := by
  simp [utf8]

omit [Scopes S] in
/-- A text and its line ending may as well be written one after the other, where the ending is not
written if the text does not fit. -/
theorem write_append (line : Line) (text ending : String) (state : State S) :
    let whole := EvalM.write line (text ++ ending) state
    let parts := (EvalM.write line text >>= fun _ ↦ EvalM.write line ending) state
    parts.1 = whole.1 ∧ parts.2.sink.output = whole.2.sink.output ∧
      parts.2.sink.room = whole.2.sink.room ∧ parts.2.scopes = whole.2.scopes ∧
      parts.2.depth = whole.2.depth := by
  intro whole parts
  simp only [parts, whole, EvalM.bind_apply, EvalM.write_apply, utf8_append,
    state.sink.fits_append line]
  by_cases hfits : state.sink.fits (utf8 text) = true
  · obtain ⟨houtput, hroom⟩ := state.sink.write_write line (utf8 text) (utf8 ending)
    simp only [hfits, if_true, Bool.true_and, and_self, and_true]
    exact ⟨rfl, houtput, hroom⟩
  · obtain ⟨houtput, hroom⟩ := state.sink.write_of_not_fits line (utf8 text) (utf8 ending) hfits
    simp only [hfits, Bool.false_and, Bool.false_eq_true, if_false, and_self, and_true, true_and]
    exact ⟨houtput, hroom⟩

/-! ### Runs -/

open Evaluator Simulation

theorem flushed_congr {first second : Sink} (h : first.flushFailure = second.flushFailure)
    (root : Line) (outcome : Except Stop α) :
    flushed first root outcome = flushed second root outcome := by
  cases outcome with
  | error stop => rfl
  | ok result => rw [flushed, flushed, h]

/-- Either both runs are the same and all that they write fits, or the run on the limited sink
ended with a write that was cut, in the scopes that the other run noted at that write. -/
theorem runIn_limited (limit fuel capacity : Nat) (refusal : Refusal) (root : Node) :
    let noted := runNoted S fuel { limit } root
    let limited := runIn S fuel { limit, sink := { room := some capacity, refusal } } root
    limited.outcome = noted.outcome ∧ limited.scopes = noted.scopes.scopes ∧
        limited.evaluator.sink.Limits capacity refusal noted.evaluator.sink ∨
      ∃ chunk : Chunk,
        limited.outcome = .error (.error ⟨.output refusal.message, chunk.line⟩) ∧
        limited.evaluator.sink.CutAt capacity chunk noted.evaluator.sink ∧
        noted.scopes.notes[limited.evaluator.sink.chunks.size - 1]? = some limited.scopes ∧
        Scopes.LeadsTo limited.scopes noted.scopes.scopes := by
  intro noted limited
  let opened := Scopes.openFrame (Scopes.empty : S) none
  have hagrees : (limiting capacity refusal : Simulation S (Noted S)).Agrees 0
      (evaluate fuel (calls limit fuel) opened.1 root)
      (evaluateWith EvalM.noting fuel (callsWith EvalM.noting (EvalM.deeper limit) fuel) opened.1
        root) :=
    (limiting_isSoundWith limit).agrees_evaluateWith fuel root rfl fun _ _ ↦ rfl
  have hstart : Sink.Limits capacity refusal { room := some capacity, refusal } {} :=
    ⟨rfl, rfl, Nat.zero_le capacity, rfl, rfl, rfl⟩
  have hjoined := hagrees.together ⟨opened.2, 0, { room := some capacity, refusal }⟩
    ⟨{ scopes := opened.2 }, 0, {}⟩ ⟨rfl, rfl, hstart, rfl⟩
  have hnoted : noted = concluded { limit } root.line (evaluateWith EvalM.noting fuel
      (callsWith EvalM.noting (EvalM.deeper limit) fuel) opened.1 root
      ⟨{ scopes := opened.2 }, 0, {}⟩) := rfl
  rw [hnoted]
  simp only [limited, runIn, runBeside_eq]
  generalize evaluate fuel (calls limit fuel) opened.1 root
    ⟨opened.2, 0, { room := some capacity, refusal }⟩ = first,
    evaluateWith EvalM.noting fuel (callsWith EvalM.noting (EvalM.deeper limit) fuel) opened.1 root
      ⟨{ scopes := opened.2 }, 0, {}⟩ = second at hjoined ⊢
  cases hjoined with
  | @completed _ result _ _ _ _ hlinked hresult =>
    obtain rfl := hresult
    refine .inl ⟨?_, hlinked.scopes, hlinked.sink⟩
    exact flushed_congr hlinked.sink.flushFailure root.line (.ok result.yielded)
  | stopped _ hlinked => exact .inl ⟨rfl, hlinked.scopes, hlinked.sink⟩
  | parted hparted =>
    obtain ⟨_, _, ⟨chunk, rfl, hrefused⟩, _⟩ := hparted
    exact .inr ⟨chunk, rfl, hrefused.cut, hrefused.note, hrefused.leads⟩

/-- A print writes its text and then its line ending, which comes to the same as writing both at
once. If what a program writes on an unlimited sink fits into a sink with limited room, it does the
same there. If it does not, the limited sink holds just the bytes that it had room for and was
written nothing after them, the error names the line of the write with the first byte that is
missing, and the scopes are those that the run on the unlimited sink noted at that write, so nothing
that it did afterwards has been done. Statements behind one that stopped are not run. A run on a
limited sink that finishes without an error of the sink is that on the unlimited sink. -/
theorem bounded_sink_prefix (limit fuel capacity : Nat) (refusal : Refusal) (root : Node) :
    let whole := runIn S fuel { limit } root
    let noted := runNoted S fuel { limit } root
    let limited := runIn S fuel { limit, sink := { room := some capacity, refusal } } root
    let bytes := whole.evaluator.sink.output
    (∀ (line : Line) (text : String) (ending : LineEnding) (state : State S),
      let print := EvalM.write line (text ++ ending.text) state
      let parts := (EvalM.write line text >>= fun _ ↦ EvalM.write line ending.text) state
      parts.1 = print.1 ∧ parts.2.sink.output = print.2.sink.output ∧
        parts.2.sink.room = print.2.sink.room ∧ parts.2.scopes = print.2.scopes ∧
        parts.2.depth = print.2.depth) ∧
    (∀ (fuel : Nat) (invoke : Invoke S) (env : FrameId) (first : List Stmt) (state after : State S)
      (stop : Stop), execBlock fuel invoke env first state = (.error stop, after) →
        ∀ second, execBlock fuel invoke env (first ++ second) state = (.error stop, after)) ∧
    (noted.outcome = whole.outcome ∧ noted.evaluator = whole.evaluator ∧
      noted.scopes.scopes = whole.scopes ∧
      noted.scopes.notes.length = whole.evaluator.sink.chunks.size) ∧
    (whole.outcome ≠ .error .outOfFuel →
      (bytes.length ≤ capacity → limited.outcome = whole.outcome ∧
        limited.evaluator.sink.output = bytes ∧ limited.scopes = whole.scopes) ∧
      (capacity < bytes.length → ∃ chunk : Chunk,
        limited.outcome = .error (.error ⟨.output refusal.message, chunk.line⟩) ∧
        limited.evaluator.sink.output = bytes.take capacity ∧
        limited.evaluator.sink.CutAt capacity chunk whole.evaluator.sink ∧
        noted.scopes.notes[limited.evaluator.sink.chunks.size - 1]? = some limited.scopes ∧
        Scopes.LeadsTo limited.scopes whole.scopes)) ∧
    (limited.outcome ≠ .error .outOfFuel →
      (∀ content line, limited.outcome ≠ .error (.error ⟨.output content, line⟩)) →
        whole.outcome = limited.outcome ∧ bytes = limited.evaluator.sink.output ∧
          whole.scopes = limited.scopes) := by
  intro whole noted limited bytes
  obtain ⟨houtcomes, hevaluators, hstores, hlength⟩ :
      noted.outcome = whole.outcome ∧ noted.evaluator = whole.evaluator ∧
        noted.scopes.scopes = whole.scopes ∧
        0 + noted.scopes.notes.length = whole.evaluator.sink.chunks.size :=
    runNoted_eq fuel { limit } root
  rw [Nat.zero_add] at hlength
  have hlimited : limited.outcome = whole.outcome ∧ limited.scopes = whole.scopes ∧
        limited.evaluator.sink.Limits capacity refusal whole.evaluator.sink ∨
      ∃ chunk : Chunk, limited.outcome = .error (.error ⟨.output refusal.message, chunk.line⟩) ∧
        limited.evaluator.sink.CutAt capacity chunk whole.evaluator.sink ∧
        noted.scopes.notes[limited.evaluator.sink.chunks.size - 1]? = some limited.scopes ∧
        Scopes.LeadsTo limited.scopes whole.scopes := by
    rw [← houtcomes, ← hevaluators, ← hstores]
    exact runIn_limited limit fuel capacity refusal root
  refine ⟨fun line text ending state ↦ write_append line text ending.text state,
    fun fuel invoke env _ _ _ _ hstop ↦ execBlock_append_stop fuel invoke env hstop,
    ⟨houtcomes, hevaluators, hstores, hlength⟩,
    fun _ ↦ ⟨fun hfits ↦ ?_, fun hlong ↦ ?_⟩, fun _ hwritten ↦ ?_⟩
  all_goals rcases hlimited with
    ⟨houtcome, hscopes, hsink⟩ | ⟨chunk, houtcome, hcut, hnote, hleads⟩
  · refine ⟨houtcome, ?_, hscopes⟩
    rw [Sink.output_eq, hsink.chunks, ← Sink.output_eq]
  · exact absurd hcut.output.2 (Nat.not_lt_of_le hfits)
  · exact absurd hsink.fits (Nat.not_le_of_lt hlong)
  · exact ⟨chunk, houtcome, hcut.output.1, hcut, hnote, hleads⟩
  · refine ⟨houtcome.symm, ?_, hscopes.symm⟩
    rw [Sink.output_eq limited.evaluator.sink, hsink.chunks, ← Sink.output_eq]
  · exact absurd houtcome (hwritten refusal.message chunk.line)

/-- A program whose function prints on its third line when a condition calls it, and then assigns a
variable. -/
def printsInCondition : Node :=
  .stmt (.block [
    .function "f" [] [.print (.bool true 3) .newline 3, .assign "shown" (.bool true 4) 4,
      .ret (some (.bool false 5)) 5] 2,
    .ifThen (.call "f" [] 6) [] 6, .print (.bool false 7) .newline 7] 1)

/-- With room for three bytes, the first of the two lines is cut inside the call, and the assignment
after it has no effect; with room for eleven, both are written. -/
theorem bounded_sink_prefix_condition :
    let whole := runIn Store 1 {} printsInCondition
    let noted := runNoted Store 1 {} printsInCondition
    let cut := runIn Store 1 { sink := { room := some 3 } } printsInCondition
    let roomy := runIn Store 1 { sink := { room := some 11 } } printsInCondition
    cut.outcome = .error (.error ⟨.output "sink full", 3⟩) ∧
      cut.evaluator.sink.output = whole.evaluator.sink.output.take 3 ∧
      noted.scopes.notes[0]? = some cut.scopes ∧ cut.scopes.get? 1 "shown" = none ∧
      whole.scopes.get? 1 "shown" = some (.set (.boolean true)) ∧
      roomy.outcome = .ok () ∧ whole.evaluator.sink.output = roomy.evaluator.sink.output := by
  intro whole noted cut roomy
  have hwhole : whole.outcome = .ok () := by rfl
  have hfinished : whole.outcome ≠ .error .outOfFuel := by
    rw [hwhole]
    nofun
  have hbytes : whole.evaluator.sink.output.length = 11 := by decide +kernel
  obtain ⟨-, -, -, hcut, -⟩ := bounded_sink_prefix (S := Store) 100 1 3 .full printsInCondition
  obtain ⟨-, -, -, hroomy, hconverse⟩ :=
    bounded_sink_prefix (S := Store) 100 1 11 .full printsInCondition
  have hsame : roomy.outcome = .ok () :=
    ((hroomy hfinished).1 (Nat.le_of_eq hbytes)).1.trans hwhole
  have hlong : 3 < whole.evaluator.sink.output.length := by
    rw [hbytes]
    decide
  obtain ⟨chunk, houtcome, hprefix, hcutAt, hnote, -⟩ := (hcut hfinished).2 hlong
  have hlines : cut.evaluator.sink.chunks.toList.map Chunk.line = [3] := by decide +kernel
  have hline : chunk.line = 3 := by
    obtain ⟨before, after, -, -, -, hchunks⟩ := hcutAt.chunks
    rw [hchunks] at hlines
    cases before <;> simp at hlines
    exact hlines
  have hsize : cut.evaluator.sink.chunks.size = 1 := by
    simpa using congrArg List.length hlines
  rw [hline] at houtcome
  rw [hsize] at hnote
  have hwritten := hconverse (by rw [hsame]; nofun) (by rw [hsame]; nofun)
  exact ⟨houtcome, hprefix, hnote, by decide +kernel, by decide +kernel, hsame, hwritten.2.1⟩

end Treewalk
