import Treewalk.Proofs.Scope.Chain
import Treewalk.Session

/-!
# What variables read, by the history of their frames

A history is a row of changes to frames, latest first, each of them to frames that were open by
then. `wayOut` and `writes` say what a history means for variables without a store: which frames
lie outward of which, and which write belongs to which frame. A declaration belongs to the frame
that it is made in. An assignment belongs to the nearest frame outward that a write of its name
belongs to already, and to the frame that it is made in if there is none.

Then a variable reads the latest write of its name that belongs to the nearest frame outward with
one (`get?_of_history`). `Mirrors` is the invariant of the stores that a history goes through.
-/

set_option autoImplicit false
set_option relaxedAutoImplicit false

namespace Treewalk

namespace Store

/-! ### Histories -/

/-- How many frames a history has opened. -/
def opened : List Change → Nat
  | [] => 0
  | .openFrame _ :: past => opened past + 1
  | .declare _ _ _ :: past | .assign _ _ _ :: past | .declareFunction _ _ :: past => opened past

/-- Whether a change refers to open frames only, when so many are open. -/
def Change.refersWithin (count : Nat) : Change → Bool
  | openFrame outer => outer.all (· < count)
  | declare env _ _ | assign env _ _ | declareFunction env _ => env < count

/-- Whether every change refers to frames that were open by then. -/
def isHistory : List Change → Bool
  | [] => true
  | change :: past => change.refersWithin (opened past) && isHistory past

/-- The store that a history leads to. -/
def ofHistory (past : List Change) : Store :=
  past.foldr (fun change store ↦ change.apply store) {}

theorem ofHistory_cons (change : Change) (past : List Change) :
    ofHistory (change :: past) = change.apply (ofHistory past) :=
  rfl

theorem Change.refersWithin_mono {change : Change} {count count' : Nat} (hcount : count ≤ count')
    (h : change.refersWithin count) : change.refersWithin count' := by
  rcases change with (_ | outer) | ⟨env, name, binding⟩ | ⟨env, name, value⟩ | ⟨env, function⟩
  · rfl
  all_goals exact decide_eq_true (Nat.lt_of_lt_of_le (of_decide_eq_true h) hcount)

theorem opened_le_opened_cons (change : Change) (past : List Change) :
    opened past ≤ opened (change :: past) := by
  cases change
  · exact Nat.le_succ _
  all_goals exact Nat.le_refl _

theorem isHistory_of_suffix {past later : List Change} (hpast : past <:+ later)
    (hlater : isHistory later) : isHistory past := by
  obtain ⟨changes, rfl⟩ := hpast
  induction changes with
  | nil => exact hlater
  | cons change changes ih => exact ih (Bool.and_eq_true_iff.mp hlater).2

/-- A frame and its outer frames, nearest first. -/
def wayOut : List Change → FrameId → List FrameId
  | [], _ => []
  | .openFrame outer :: past, id =>
    if id = opened past then id :: outer.elim [] (wayOut past) else wayOut past id
  | .declare _ _ _ :: past, id | .assign _ _ _ :: past, id | .declareFunction _ _ :: past, id =>
    wayOut past id

/-- What is given to a name, and the frame that this belongs to. -/
structure Write where
  owner : FrameId
  name : String
  payload : Binding

/-- Whether a write of this name belongs to this frame. -/
def Write.isFor (frame : FrameId) (name : String) (write : Write) : Bool :=
  write.owner = frame ∧ write.name = name

/-- Whether any write of a name belongs to a frame. -/
def isOwner (log : List Write) (name : String) (frame : FrameId) : Bool :=
  log.any (Write.isFor frame name)

/-- The writes of a history, latest first. -/
def writes : List Change → List Write
  | [] => []
  | .declare env name binding :: past => ⟨env, name, binding⟩ :: writes past
  | .assign env name value :: past =>
    ⟨((wayOut past env).find? (isOwner (writes past) name)).getD env, name, .set value⟩ ::
      writes past
  | .openFrame _ :: past | .declareFunction _ _ :: past => writes past

/-- A frame is the nearest on a way that a write of the name belongs to. -/
def IsNearestOwner (log : List Write) (way : List FrameId) (name : String) (frame : FrameId) :
    Prop :=
  ∃ nearer farther, way = nearer ++ frame :: farther ∧ isOwner log name frame ∧
    ∀ other ∈ nearer, ¬ isOwner log name other

/-- The latest write of a name that belongs to a frame has this payload. -/
def IsLatest (log : List Write) (frame : FrameId) (name : String) (payload : Binding) : Prop :=
  ∃ later earlier, log = later ++ ⟨frame, name, payload⟩ :: earlier ∧
    ∀ write ∈ later, ¬ write.isFor frame name

/-! ### The latest write -/

/-- The payload of the latest write of a name that belongs to a frame. -/
def latest? (log : List Write) (name : String) (frame : FrameId) : Option Binding :=
  (log.find? (Write.isFor frame name)).map Write.payload

theorem latest?_cons (write : Write) (log : List Write) (name : String) (frame : FrameId) :
    latest? (write :: log) name frame =
      if write.owner = frame ∧ write.name = name then some write.payload
      else latest? log name frame := by
  unfold latest?
  rw [List.find?_cons]
  by_cases hwrite : write.owner = frame ∧ write.name = name
  · simp [Write.isFor, hwrite]
  · simp [Write.isFor, hwrite]

theorem isSome_latest? (log : List Write) (name : String) (frame : FrameId) :
    (latest? log name frame).isSome = isOwner log name frame := by
  rw [latest?, Option.isSome_map, List.isSome_find?, isOwner]

theorem latest?_eq_some_iff {log : List Write} {name : String} {frame : FrameId}
    {payload : Binding} :
    latest? log name frame = some payload ↔ IsLatest log frame name payload := by
  unfold latest? IsLatest
  constructor
  · intro h
    obtain ⟨⟨owner, written, payload⟩, hfind, rfl⟩ := Option.map_eq_some_iff.mp h
    obtain ⟨hfor, later, earlier, rfl, hlater⟩ := List.find?_eq_some_iff_append.mp hfind
    obtain ⟨rfl, rfl⟩ : owner = frame ∧ written = name := by simpa [Write.isFor] using hfor
    exact ⟨later, earlier, rfl, fun write hwrite ↦ by simpa using hlater write hwrite⟩
  · rintro ⟨later, earlier, rfl, hlater⟩
    refine Option.map_eq_some_iff.mpr ⟨⟨frame, name, payload⟩, ?_, rfl⟩
    refine List.find?_eq_some_iff_append.mpr ⟨by simp [Write.isFor], later, earlier, rfl, ?_⟩
    exact fun write hwrite ↦ by simpa using hlater write hwrite

/-! ### Stores of histories -/

/-- A store is what a history says of it. -/
structure Mirrors (store : Store) (past : List Change) : Prop where
  size : store.frames.size = opened past
  wellFormed : store.WellFormed
  chain : ∀ id, store.chain id = wayOut past id
  bindings : ∀ name id, store.binding? name id = latest? (writes past) name id

variable {store : Store} {past : List Change}

theorem mirrors_empty : ({} : Store).Mirrors [] where
  size := rfl
  wellFormed := wellFormed_empty
  chain _ := rfl
  bindings name id := by simp [binding?, writes, latest?]

theorem Mirrors.owner? (h : store.Mirrors past) (env : FrameId) (name : String) :
    store.owner? env name = (wayOut past env).find? (isOwner (writes past) name) := by
  rw [Store.owner?, h.chain]
  refine List.find?_congr fun frame _ ↦ ?_
  rw [h.bindings, isSome_latest?]

theorem Mirrors.openFrame (h : store.Mirrors past) {outer : Option FrameId}
    (houter : ∀ id, outer = some id → id < store.frames.size) :
    (store.openFrame outer).2.Mirrors (.openFrame outer :: past) where
  size := by rw [size_openFrame, h.size, opened]
  wellFormed := h.wellFormed.openFrame houter
  chain id := by rw [chain_openFrame h.wellFormed houter, h.size, wayOut, funext h.chain]
  bindings name id := by
    rw [binding?_openFrame, writes, ← h.bindings]
    split_ifs with hid
    · rw [hid, binding?, Array.getElem?_eq_none (Nat.le_refl _), Option.bind_none]
    · rfl

/-- One more write, to an open frame. -/
theorem Mirrors.declare (h : store.Mirrors past) {id : FrameId} (hid : id < store.frames.size)
    (name : String) (binding : Binding) {change : Change}
    (hopened : opened (change :: past) = opened past)
    (hway : ∀ id, wayOut (change :: past) id = wayOut past id)
    (hwrites : writes (change :: past) = ⟨id, name, binding⟩ :: writes past) :
    (store.declare id name binding).Mirrors (change :: past) where
  size := by rw [size_declare, h.size, hopened]
  wellFormed := h.wellFormed.congr fun _ ↦ outer?_declare _ _ _ _ _
  chain other := by
    rw [chain_congr (size_declare _ _ _ _) (fun _ ↦ outer?_declare _ _ _ _ _), h.chain, hway]
  bindings asked other := by
    rw [binding?_declare, hwrites, latest?_cons, h.bindings]
    refine if_congr ?_ rfl rfl
    constructor
    · rintro ⟨rfl, rfl, -⟩
      exact ⟨rfl, rfl⟩
    · rintro ⟨rfl, rfl⟩
      exact ⟨rfl, rfl, hid⟩

theorem Mirrors.declareFunction (h : store.Mirrors past) (id : FrameId) (function : Function) :
    (store.declareFunction id function).Mirrors (.declareFunction id function :: past) where
  size := by rw [size_declareFunction, h.size, opened]
  wellFormed := h.wellFormed.congr fun _ ↦ outer?_declareFunction _ _ _ _
  chain other := by
    rw [chain_congr (size_declareFunction _ _ _) (fun _ ↦ outer?_declareFunction _ _ _ _),
      h.chain, wayOut]
  bindings asked other := by rw [binding?_declareFunction, h.bindings, writes]

theorem Mirrors.apply (h : store.Mirrors past) {change : Change}
    (hchange : change.refersWithin (opened past)) :
    (change.apply store).Mirrors (change :: past) := by
  rcases change with outer | ⟨env, name, binding⟩ | ⟨env, name, value⟩ | ⟨env, function⟩
  · refine h.openFrame ?_
    rintro id rfl
    simpa [Change.refersWithin, h.size] using hchange
  · have henv : env < store.frames.size := by simpa [Change.refersWithin, h.size] using hchange
    exact h.declare henv name binding rfl (fun _ ↦ rfl) rfl
  · have henv : env < store.frames.size := by simpa [Change.refersWithin, h.size] using hchange
    -- In a frame that is not open, the declaration would have no effect.
    have howner : (store.owner? env name).getD env < store.frames.size := by
      rcases hfound : store.owner? env name with _ | owner
      · exact henv
      · obtain ⟨_, hbinding⟩ := Option.isSome_iff_exists.mp (mem_chain_of_owner? hfound).2
        exact lt_size_of_binding? hbinding
    refine h.declare howner name (.set value) rfl (fun _ ↦ rfl) ?_
    rw [writes, h.owner?]
  · exact h.declareFunction env function

theorem mirrors_ofHistory (hpast : isHistory past) : (ofHistory past).Mirrors past := by
  induction past with
  | nil => exact mirrors_empty
  | cons change past ih =>
    obtain ⟨hchange, hpast⟩ := Bool.and_eq_true_iff.mp hpast
    exact (ih hpast).apply hchange

/-! ### Reads -/

/-- Whether a change declares no function. -/
def Change.isOfVariables : Change → Bool
  | declareFunction _ _ => false
  | _ => true

section Functions

variable (past : List Change)

/-- Nothing that is read off a history changes when its function declarations are left out. -/
theorem filter_isOfVariables :
    opened (past.filter Change.isOfVariables) = opened past ∧
      wayOut (past.filter Change.isOfVariables) = wayOut past ∧
      writes (past.filter Change.isOfVariables) = writes past := by
  induction past with
  | nil => exact ⟨rfl, rfl, rfl⟩
  | cons change past ih =>
    obtain ⟨hopened, hway, hwrites⟩ := ih
    rcases change with outer | ⟨env, name, binding⟩ | ⟨env, name, value⟩ | ⟨env, function⟩
    · refine ⟨congrArg (· + 1) hopened, ?_, hwrites⟩
      ext1 id
      simp only [List.filter_cons, Change.isOfVariables, if_true, wayOut, hopened, hway]
    · refine ⟨hopened, ?_, ?_⟩
      · ext1 id
        simp only [List.filter_cons, Change.isOfVariables, if_true, wayOut, hway]
      · simp only [List.filter_cons, Change.isOfVariables, if_true, writes, hwrites]
    · refine ⟨hopened, ?_, ?_⟩
      · ext1 id
        simp only [List.filter_cons, Change.isOfVariables, if_true, wayOut, hway]
      · simp only [List.filter_cons, Change.isOfVariables, if_true, writes, hway, hwrites]
    · refine ⟨hopened, ?_, hwrites⟩
      ext1 id
      rw [wayOut, ← hway]
      rfl

theorem isHistory_filter (hpast : isHistory past) :
    isHistory (past.filter Change.isOfVariables) := by
  induction past with
  | nil => rfl
  | cons change past ih =>
    obtain ⟨hchange, hpast⟩ := Bool.and_eq_true_iff.mp hpast
    rw [List.filter_cons]
    split_ifs
    · exact Bool.and_eq_true_iff.mpr ⟨(filter_isOfVariables past).1 ▸ hchange, ih hpast⟩
    · exact ih hpast

end Functions

theorem Mirrors.get? (h : store.Mirrors past) (env : FrameId) (name : String) :
    store.get? env name = (wayOut past env).findSome? (latest? (writes past) name) := by
  rw [Store.get?, h.chain]
  exact findSome?_congr fun frame _ ↦ h.bindings name frame

/-- After a history, a variable is missing in a frame if no write of its name belongs to the frame
or to one outward of it. Otherwise it holds the payload of the latest write that belongs to the
nearest such frame. What functions the history declares makes no difference. -/
theorem get?_of_history {past : List Change} (hpast : isHistory past) :
    (∀ env name, (ofHistory past).get? env name = none ↔
      ∀ frame ∈ wayOut past env, ¬ isOwner (writes past) name frame) ∧
    (∀ env name binding, (ofHistory past).get? env name = some binding ↔
      ∃ frame, IsNearestOwner (writes past) (wayOut past env) name frame ∧
        IsLatest (writes past) frame name binding) ∧
    ∀ env name, (ofHistory (past.filter Change.isOfVariables)).get? env name =
      (ofHistory past).get? env name := by
  have hmirrors := mirrors_ofHistory hpast
  refine ⟨fun env name ↦ ?_, fun env name binding ↦ ?_, fun env name ↦ ?_⟩
  · rw [hmirrors.get?, List.findSome?_eq_none_iff]
    refine forall₂_congr fun frame _ ↦ ?_
    rw [← isSome_latest?, Bool.not_eq_true, Option.isSome_eq_false_iff, Option.isNone_iff_eq_none]
  · rw [hmirrors.get?, List.findSome?_eq_some_iff]
    constructor
    · rintro ⟨nearer, frame, farther, hway, hlatest, hnearer⟩
      refine ⟨frame, ⟨nearer, farther, hway, ?_, fun other hother ↦ ?_⟩, ?_⟩
      · rw [← isSome_latest?, hlatest, Option.isSome_some]
      · rw [← isSome_latest?, hnearer other hother]
        exact Bool.false_ne_true
      · exact latest?_eq_some_iff.mp hlatest
    · rintro ⟨frame, ⟨nearer, farther, hway, -, hnearer⟩, hlatest⟩
      refine ⟨nearer, frame, farther, hway, latest?_eq_some_iff.mpr hlatest, fun other hother ↦ ?_⟩
      have hnone := hnearer other hother
      rwa [← isSome_latest?, Bool.not_eq_true, Option.isSome_eq_false_iff,
        Option.isNone_iff_eq_none] at hnone
  · obtain ⟨-, hway, hwrites⟩ := filter_isOfVariables past
    rw [hmirrors.get?, (mirrors_ofHistory (isHistory_filter past hpast)).get?, hway, hwrites]

/-- A frame under another assigns to a variable that the other declared, and shadows it only then.
A function of the same name is not seen. -/
theorem get?_of_history_shadowing :
    let past : List Change := [.declareFunction 1 ⟨"x", [], [], 1⟩, .assign 1 "x" (.boolean false),
      .declare 1 "x" .unset, .assign 1 "x" (.boolean true), .declare 0 "x" .unset,
      .openFrame (some 0), .openFrame none]
    isHistory past ∧ (ofHistory past).get? 0 "x" = some (.set (.boolean true)) ∧
      (ofHistory past).get? 1 "x" = some (.set (.boolean false)) ∧
      (ofHistory past).get? 1 "y" = none := by
  intro past
  have hpast : isHistory past := by rfl
  obtain ⟨hmissing, hfound, -⟩ := get?_of_history hpast
  refine ⟨hpast, (hfound 0 "x" _).mpr ⟨0, ⟨[], [], rfl, rfl, ?_⟩, ?_⟩,
    (hfound 1 "x" _).mpr ⟨1, ⟨[], [0], rfl, rfl, ?_⟩, ?_⟩, (hmissing 1 "y").mpr ?_⟩
  · exact fun _ hother ↦ by cases hother
  · exact ⟨[⟨1, "x", .set (.boolean false)⟩, ⟨1, "x", .unset⟩], [⟨0, "x", .unset⟩], rfl,
      by decide⟩
  · exact fun _ hother ↦ by cases hother
  · exact ⟨[], [⟨1, "x", .unset⟩, ⟨0, "x", .set (.boolean true)⟩, ⟨0, "x", .unset⟩], rfl,
      by decide⟩
  · decide

end Store

end Treewalk
