import Treewalk.Proofs.Simulation.Evaluator

/-!
# Invariants of one run

A relation between a state that stays fixed and the state of a run is kept by every evaluation if
it is kept by the few computations that touch the state (`IsInvariant`), and an evaluation stops
only as those computations do, or for a fault in the values that it meets. The relation is that of
a simulation whose first run has stopped, so the induction over the syntax is the one for two runs.
-/

set_option autoImplicit false
set_option relaxedAutoImplicit false

namespace Treewalk

variable {S α : Type}

/-- The computation keeps the relation and stops as it may. -/
structure Keeps (keeps : State S → State S → Prop) (ends : Stop → Prop) (computation : EvalM S α) :
    Prop where
  state : ∀ s t, keeps s t → keeps s (computation t).2
  stop : ∀ s t stop, keeps s t → (computation t).1 = .error stop → ends stop

theorem Keeps.of_state {keeps : State S → State S → Prop} {computation : EvalM S α}
    (h : ∀ s t, keeps s t → keeps s (computation t).2) : Keeps keeps (fun _ ↦ True) computation :=
  ⟨h, fun _ _ _ _ _ ↦ trivial⟩

/-- The body of a call may keep another relation, if opening the call leads to that one and closing
it leads back. -/
theorem Keeps.deeper {outside inside : State S → State S → Prop} {ends : Stop → Prop}
    {limit : Nat} {line : Line} {body : EvalM S α}
    (hopened : ∀ s t, outside s t → t.depth < limit →
      inside { s with depth := s.depth + 1 } { t with depth := t.depth + 1 })
    (hclosed : ∀ s t after, outside s t → inside { s with depth := s.depth + 1 } after →
      outside s { after with depth := after.depth - 1 })
    (hrefused : ∀ s t, outside s t → ¬ t.depth < limit → ends (.error ⟨.stackOverflow limit, line⟩))
    (hbody : Keeps inside ends body) :
    Keeps outside ends (EvalM.deeper limit line body) where
  state s t houtside := by
    unfold EvalM.deeper
    split
    · rename_i hroom
      exact hclosed s t _ houtside (hbody.state _ _ (hopened s t houtside hroom))
    · exact houtside
  stop s t stop houtside hstop := by
    unfold EvalM.deeper at hstop
    split at hstop
    · rename_i hroom
      exact hbody.stop _ _ stop (hopened s t houtside hroom) hstop
    · rename_i hfull
      cases hstop
      exact hrefused s t houtside hfull

/-- The computations that touch the state keep the relation, with expressions evaluated at the
sites and statements run in the homes. -/
structure IsInvariant [Scopes S] (enter : Enter S) (keeps : State S → State S → Prop)
    (ends : Stop → Prop) (site home : FrameId → Prop) : Prop where
  site_of_home : ∀ {env}, home env → site env
  read : ∀ {env} name line, site env → Keeps keeps ends (EvalM.read env name line)
  resolve : ∀ {env} name count line, site env → Keeps keeps ends (EvalM.resolve env name count line)
  site_resolve : ∀ {s t env} name count line closure, site env → keeps s t →
    (EvalM.resolve env name count line t).1 = .ok closure → site closure.frame
  openFrame : ∀ {env}, site env → Keeps keeps ends (EvalM.openFrame env)
  home_openFrame : ∀ {s t env} inner, site env → keeps s t →
    (EvalM.openFrame env t).1 = .ok inner → home inner
  assign : ∀ {env} name value, home env → Keeps keeps ends (EvalM.assign env name value)
  declare : ∀ {env} name binding, home env → Keeps keeps ends (EvalM.declare env name binding)
  declareFunction : ∀ {env} function, home env →
    Keeps keeps ends (EvalM.declareFunction env function)
  write : ∀ line text, Keeps keeps ends (EvalM.write line text)
  entered : ∀ {body : EvalM S (Option Value)} line, Keeps keeps ends body →
    Keeps keeps ends (enter line body)
  fault : ∀ fault line, fault.isOfValues → ends (.error ⟨fault, line⟩)
  outOfFuel : ends .outOfFuel

namespace Simulation

variable {keeps : State S → State S → Prop} {ends : Stop → Prop} {site home : FrameId → Prop}

/-- A run whose partner has stopped. -/
def solo (keeps : State S → State S → Prop) (ends : Stop → Prop) (site home : FrameId → Prop) :
    Simulation S S where
  linked _ _ _ := False
  parted _ _ s t := keeps s t
  ends := ends
  site _ _ env := site env
  home _ _ env := home env

theorem solo_matches {stage : Nat} {post : Nat → α → α → Prop} {first second : EvalM S α}
    (hkeeps : Keeps keeps ends second)
    (hpost : ∀ s t result, keeps s t → (second t).1 = .ok result → ∃ a, post stage a result) :
    (solo keeps ends site home).Matches stage post first second where
  together _ _ hlinked := hlinked.elim
  alone _ s t hparted :=
    ⟨stage, Nat.le_refl stage, hkeeps.state s t hparted, fun result ↦ hpost s t result hparted,
      fun stop ↦ hkeeps.stop s t stop hparted⟩

theorem solo_agrees {stage : Nat} {first second : EvalM S α} (hkeeps : Keeps keeps ends second) :
    (solo keeps ends site home).Agrees stage first second :=
  solo_matches hkeeps fun _ _ result _ _ ↦ ⟨result, rfl⟩

theorem keeps_of_solo (stage : Nat) {first second : EvalM S α}
    (h : (solo keeps ends site home).Agrees stage first second) : Keeps keeps ends second where
  state s t hkeeps := by
    obtain ⟨_, _, hafter, _⟩ := h.alone .outOfFuel s t hkeeps
    exact hafter
  stop s t stop hkeeps hstop := by
    obtain ⟨_, _, _, _, hends⟩ := h.alone .outOfFuel s t hkeeps
    exact hends stop hstop

end Simulation

namespace IsInvariant

open Simulation

variable [Scopes S] {enter : Enter S} {keeps : State S → State S → Prop} {ends : Stop → Prop}
  {site home : FrameId → Prop}

theorem isSound (h : IsInvariant enter keeps ends site home) :
    (solo keeps ends site home).IsSound enter enter where
  site_mono _ hsite := hsite
  home_mono _ hhome := hhome
  site_of_home hhome := h.site_of_home hhome
  read name line hsite := solo_agrees (h.read name line hsite)
  resolve name count line hsite :=
    solo_matches (h.resolve name count line hsite) fun _ _ closure hkeeps hok ↦
      ⟨closure, rfl, h.site_resolve name count line closure hsite hkeeps hok⟩
  openFrame hsite :=
    solo_matches (h.openFrame hsite) fun _ _ inner hkeeps hok ↦
      ⟨inner, h.home_openFrame inner hsite hkeeps hok⟩
  assign name value hhome := solo_agrees (h.assign name value hhome)
  declare name binding hhome := solo_agrees (h.declare name binding hhome)
  declareFunction function hhome := solo_agrees (h.declareFunction function hhome)
  write _ line text := solo_agrees (h.write line text)
  entered line hbody := solo_agrees (h.entered line (keeps_of_solo _ hbody))
  fault := h.fault
  outOfFuel := h.outOfFuel

/-- An evaluation keeps an invariant. A statement needs a home, an expression no more than a
site. -/
theorem evaluate (h : IsInvariant enter keeps ends site home) (fuel : Nat) {env : FrameId}
    (node : Node) (hsite : site env) (hhome : ∀ root, node = .stmt root → home env) :
    Keeps keeps ends (Treewalk.evaluate fuel (callsBy enter fuel) env node) := by
  have hagrees : (solo keeps ends site home).Agrees 0
      (Treewalk.evaluate fuel (callsBy enter fuel) env node)
      (Treewalk.evaluate fuel (callsBy enter fuel) env node) :=
    h.isSound.agrees_evaluate (h.isSound.invokes_calls (.refl fuel)) (.refl fuel) node hsite hhome
  exact keeps_of_solo 0 hagrees

/-- So does the evaluation of the arguments of a call. -/
theorem evalArguments (h : IsInvariant enter keeps ends site home) (fuel : Nat) {env : FrameId}
    (arguments : List Expr) (hsite : site env) :
    Keeps keeps ends (Treewalk.evalArguments (callsBy enter fuel) env arguments) := by
  have hagrees : (solo keeps ends site home).Agrees 0
      (Treewalk.evalArguments (callsBy enter fuel) env arguments)
      (Treewalk.evalArguments (callsBy enter fuel) env arguments) :=
    h.isSound.agrees_evalArguments (h.isSound.invokes_calls (.refl fuel)) arguments hsite
  exact keeps_of_solo 0 hagrees

end IsInvariant

end Treewalk
