import FrameGraph.Slot

/-!
# The history of a slot

A slot is changed by calls that install a plan or adopt the result of a compile, and each call is
answered with the generation that it reaches or with an error. Whether a call is accepted depends on
what it brings and not on the slot (`Slot.install_cases`, `Slot.adopt_cases`). So after any calls
the slot holds the plan of the last accepted one, ready to run, and its generation has counted the
accepted ones (`Slot.run_history`).
-/

namespace FrameGraph

namespace Plan

/-- The plan once all its passes are prepared. -/
def ready (p : Plan) : Plan := { p with prepared := true }

/-- The plan cannot run: `err` is the fault of its first pass that has one. Passes that have been
prepared are not asked again. -/
def Fails (p : Plan) (err : PassError) : Prop :=
  p.prepared = false ∧ ∃ before pass after, p.passes = before ++ pass :: after ∧
    (∀ earlier ∈ before, earlier.check p.resources.has = .ok ()) ∧
    pass.check p.resources.has = .error err

/-- Checking stops at the first pass with a fault. -/
theorem checkPasses_eq_error {isPresent : BucketId → Bool} {passes : List Pass} {err : PassError} :
    checkPasses isPresent passes = .error err ↔
      ∃ before pass after, passes = before ++ pass :: after ∧
        (∀ earlier ∈ before, earlier.check isPresent = .ok ()) ∧
        pass.check isPresent = .error err := by
  induction passes with
  | nil => simp [checkPasses]
  | cons first passes ih =>
    rw [checkPasses]
    cases hfirst : first.check isPresent with
    | error err' =>
      constructor
      · intro h
        exact ⟨[], first, passes, rfl, by simp, hfirst.trans h⟩
      · rintro ⟨before, pass, after, hsplit, hbefore, hpass⟩
        cases before with
        | nil =>
          obtain ⟨rfl, rfl⟩ := List.cons.inj hsplit
          exact hfirst.symm.trans hpass
        | cons b before =>
          obtain ⟨rfl, -⟩ := List.cons.inj hsplit
          cases hfirst.symm.trans (hbefore _ List.mem_cons_self)
    | ok _ =>
      rw [ih]
      constructor
      · rintro ⟨before, pass, after, rfl, hbefore, hpass⟩
        exact ⟨first :: before, pass, after, rfl, List.forall_mem_cons.mpr ⟨hfirst, hbefore⟩, hpass⟩
      · rintro ⟨before, pass, after, hsplit, hbefore, hpass⟩
        cases before with
        | nil =>
          obtain ⟨rfl, rfl⟩ := List.cons.inj hsplit
          cases hfirst.symm.trans hpass
        | cons b before =>
          obtain ⟨rfl, rfl⟩ := List.cons.inj hsplit
          exact ⟨before, pass, after, rfl, (List.forall_mem_cons.mp hbefore).2, hpass⟩

theorem prepare_eq_error {p : Plan} {err : PassError} : p.prepare = .error err ↔ p.Fails err := by
  unfold prepare Fails
  rw [← checkPasses_eq_error]
  cases p.prepared with
  | true => simp
  | false =>
    cases checkPasses p.resources.has p.passes with
    | error err' => simp [Except.map]
    | ok _ => simp [Except.map]

/-- A plan that is prepared is only marked as such. -/
theorem prepare_ok {p q : Plan} (h : p.prepare = .ok q) : q = p.ready := by
  unfold prepare at h
  split at h
  · next hp =>
    cases h
    rw [ready, ← hp]
  · cases hcheck : checkPasses p.resources.has p.passes with
    | error err => rw [hcheck] at h; cases h
    | ok _ => rw [hcheck] at h; cases h; rfl

end Plan

namespace CompileResult

theorem offer_eq_ok {r : CompileResult} {plan : Plan} :
    r.offer = .ok plan ↔ r.success = true ∧ r.plan = some plan := by
  unfold offer
  cases r.plan with
  | none => simp
  | some p => cases r.success <;> simp

theorem offer_eq_error {r : CompileResult} :
    (∃ reason, r.offer = .error reason) ↔ r.success = false ∨ r.plan = none := by
  unfold offer
  cases r.plan with
  | none => simp
  | some p => cases r.success <;> simp

end CompileResult

namespace Slot

/-! ## Calls and their answers -/

/-- One call on a slot. -/
inductive Call
  | install (plan : Plan)
  | adopt (r : CompileResult)

/-- The plan that a call brings, if it brings one. -/
def Call.plan? : Call → Option Plan
  | .install plan => some plan
  | .adopt r => r.plan

def call (s : Slot) : Call → Except AdoptError Slot
  | .install plan => s.install plan
  | .adopt r => s.adopt r

/-- What a call is answered with: the generation that it reaches, or the error. -/
def answer (s : Slot) (c : Call) : Except AdoptError Nat := (s.call c).map (·.generation)

/-- The slot after a call, accepted or not. -/
def after (s : Slot) (c : Call) : Slot := (s.call c).toOption.getD s

/-- The slot after some calls. -/
def run (s : Slot) (calls : List Call) : Slot := calls.foldl after s

/-- Calls in order, each with its answer. -/
def history (s : Slot) : List Call → List (Call × Except AdoptError Nat)
  | [] => []
  | c :: calls => (c, s.answer c) :: history (s.after c) calls

/-- The plans of the accepted calls of a history, in order. -/
def accepted (history : List (Call × Except AdoptError Nat)) : List Plan :=
  (history.filter (·.2.isOk)).filterMap (·.1.plan?)

/-! ## One call -/

variable {s : Slot} {c : Call} {err : AdoptError}

/-- A plan is installed, or it cannot run. -/
theorem install_cases (s : Slot) (plan : Plan) :
    (s.install plan = .ok ⟨s.generation + 1, some plan.ready⟩ ∧ ∀ err, ¬ plan.Fails err) ∨
      ∃ err, s.install plan = .error (.preparation err) ∧
        ∀ err', plan.Fails err' ↔ err' = err := by
  simp only [← Plan.prepare_eq_error]
  unfold install
  cases hprepare : plan.prepare with
  | error err => exact .inr ⟨err, rfl, fun err' => by rw [Except.error.injEq, eq_comm]⟩
  | ok q => exact .inl ⟨by rw [Plan.prepare_ok hprepare], fun err => nofun⟩

/-- A result that brings no plan is refused before any plan is prepared. -/
theorem adopt_cases (s : Slot) (r : CompileResult) :
    (∃ plan, r.success = true ∧ r.plan = some plan ∧ s.adopt r = s.install plan) ∨
      (r.success = false ∨ r.plan = none) ∧
        ∃ reason, s.adopt r = .error (.compileFailed reason) := by
  unfold adopt
  cases hoffer : r.offer with
  | ok plan =>
    obtain ⟨hsuccess, hplan⟩ := CompileResult.offer_eq_ok.mp hoffer
    exact .inl ⟨plan, hsuccess, hplan, rfl⟩
  | error reason => exact .inr ⟨CompileResult.offer_eq_error.mp ⟨reason, hoffer⟩, reason, rfl⟩

theorem call_ok {t : Slot} (h : s.call c = .ok t) :
    ∃ plan, c.plan? = some plan ∧ t = ⟨s.generation + 1, some plan.ready⟩ := by
  have hinstall : ∀ plan, s.install plan = .ok t → t = ⟨s.generation + 1, some plan.ready⟩ := by
    intro plan h
    rcases install_cases s plan with ⟨hok, -⟩ | ⟨err, herror, -⟩
    · exact Except.ok.inj (h.symm.trans hok)
    · cases h.symm.trans herror
  cases c with
  | install plan => exact ⟨plan, rfl, hinstall plan h⟩
  | adopt r =>
    rcases adopt_cases s r with ⟨plan, -, hplan, hadopt⟩ | ⟨-, reason, hadopt⟩
    · exact ⟨plan, hplan, hinstall plan (hadopt.symm.trans h)⟩
    · cases h.symm.trans hadopt

/-- An installed plan is refused exactly for the first fault of its passes. -/
theorem install_eq_error {plan : Plan} :
    s.install plan = .error err ↔ ∃ fault, err = .preparation fault ∧ plan.Fails fault := by
  rcases install_cases s plan with ⟨hok, hnone⟩ | ⟨fault, herror, hfails⟩
  · rw [hok]
    exact ⟨nofun, fun ⟨fault, _, hfails⟩ => absurd hfails (hnone fault)⟩
  · rw [herror, Except.error.injEq]
    constructor
    · rintro rfl
      exact ⟨fault, rfl, (hfails fault).mpr rfl⟩
    · rintro ⟨fault', rfl, hfault⟩
      rw [(hfails fault').mp hfault]

theorem adopt_eq_compileFailed {r : CompileResult} :
    (∃ reason, s.adopt r = .error (.compileFailed reason)) ↔
      r.success = false ∨ r.plan = none := by
  rcases adopt_cases s r with ⟨plan, hsuccess, hplan, hadopt⟩ | ⟨hnone, reason, hadopt⟩
  · rw [hadopt, hsuccess, hplan]
    simp [install_eq_error]
  · exact iff_of_true ⟨reason, hadopt⟩ hnone

theorem adopt_eq_preparation {r : CompileResult} {fault : PassError} :
    s.adopt r = .error (.preparation fault) ↔
      r.success = true ∧ ∃ plan, r.plan = some plan ∧ plan.Fails fault := by
  rcases adopt_cases s r with ⟨plan, hsuccess, hplan, hadopt⟩ | ⟨hnone, reason, hadopt⟩
  · rw [hadopt, hsuccess, hplan]
    simp [install_eq_error]
  · rw [hadopt]
    refine ⟨nofun, fun ⟨hsuccess, plan, hplan, _⟩ => ?_⟩
    simp [hsuccess, hplan] at hnone

theorem answer_eq_error : s.answer c = .error err ↔ s.call c = .error err := by
  unfold answer
  cases s.call c <;> simp [Except.map]

theorem answer_eq_ok {generation : Nat} :
    s.answer c = .ok generation ↔ ∃ t, s.call c = .ok t ∧ t.generation = generation := by
  unfold answer
  cases s.call c <;> simp [Except.map]

theorem after_of_error (h : s.answer c = .error err) : s.after c = s := by
  rw [after, answer_eq_error.mp h]
  rfl

/-- An accepted call reaches the next generation with its plan made ready. -/
theorem after_of_ok {generation : Nat} (h : s.answer c = .ok generation) :
    generation = s.generation + 1 ∧
      ∃ plan, c.plan? = some plan ∧ s.after c = ⟨generation, some plan.ready⟩ := by
  obtain ⟨t, hcall, rfl⟩ := answer_eq_ok.mp h
  obtain ⟨plan, hplan, rfl⟩ := call_ok hcall
  refine ⟨rfl, plan, hplan, ?_⟩
  rw [after, hcall]
  rfl

/-! ## Any number of calls -/

theorem accepted_cons {a : Except AdoptError Nat} {history : List (Call × Except AdoptError Nat)} :
    accepted ((c, a) :: history) =
      (if a.isOk then c.plan?.toList else []) ++ accepted history := by
  unfold accepted
  rw [List.filter_cons]
  cases a.isOk with
  | false => rfl
  | true =>
    rw [if_pos rfl, if_pos rfl, List.filterMap_cons]
    cases c.plan? <;> rfl

theorem run_concat (s : Slot) (calls : List Call) (c : Call) :
    s.run (calls ++ [c]) = (s.run calls).after c := by
  rw [run, List.foldl_append]
  rfl

theorem generation_run (s : Slot) (calls : List Call) :
    (s.run calls).generation = s.generation + (s.history calls).countP (·.2.isOk) := by
  induction calls generalizing s with
  | nil => rfl
  | cons c calls ih =>
    rw [run, List.foldl_cons, ← run, ih, history, List.countP_cons]
    cases hanswer : s.answer c with
    | error err =>
      rw [after_of_error hanswer]
      rfl
    | ok generation =>
      obtain ⟨rfl, plan, -, hafter⟩ := after_of_ok hanswer
      rw [hafter]
      exact Nat.add_right_comm ..

/-- The answers to the accepted calls count on from the generation of the slot. -/
theorem answers_history (s : Slot) (calls : List Call) :
    (s.history calls).filterMap (·.2.toOption) =
      List.range' (s.generation + 1) ((s.history calls).countP (·.2.isOk)) := by
  induction calls generalizing s with
  | nil => rfl
  | cons c calls ih =>
    have ih := ih (s.after c)
    rw [history, List.filterMap_cons, List.countP_cons, ih]
    cases hanswer : s.answer c with
    | error err =>
      rw [after_of_error hanswer]
      rfl
    | ok generation =>
      obtain ⟨rfl, plan, -, hafter⟩ := after_of_ok hanswer
      rw [hafter]
      exact List.range'_succ.symm

theorem current_run (s : Slot) (calls : List Call) :
    (s.run calls).current =
      ((accepted (s.history calls)).getLast?.map Plan.ready).or s.current := by
  induction calls generalizing s with
  | nil => rfl
  | cons c calls ih =>
    rw [run, List.foldl_cons, ← run, ih, history, accepted_cons]
    cases hanswer : s.answer c with
    | error err =>
      rw [after_of_error hanswer]
      rfl
    | ok generation =>
      obtain ⟨-, plan, hplan, hafter⟩ := after_of_ok hanswer
      rw [hafter, hplan]
      change _ = Option.or (Option.map Plan.ready (([plan] ++ _).getLast?)) _
      rw [List.getLast?_append, Option.map_or, Option.or_assoc]
      rfl

/-- Whatever is asked of a slot, its generation counts the accepted calls, and each of these is
answered with the count that it reaches. The slot holds the plan of the last of them, ready to
run, or what it held before if there is none. An accepted call reaches the next generation with its
own plan, and a refused one leaves the slot as it was. A result is refused as a failed compile
exactly if it is no success or has no plan, and otherwise exactly if one of the passes cannot be
prepared, for the fault of the first such pass. -/
theorem run_history (s : Slot) (calls : List Call) :
    let history := s.history calls
    let count := history.countP (·.2.isOk)
    (s.run calls).generation = s.generation + count ∧
    history.filterMap (·.2.toOption) = List.range' (s.generation + 1) count ∧
    (s.run calls).current = ((accepted history).getLast?.map Plan.ready).or s.current ∧
    ∀ before c rest, calls = before ++ c :: rest →
      let u := s.run before
      let v := s.run (before ++ [c])
      (∀ generation, u.answer c = .ok generation → generation = u.generation + 1 ∧
        ∃ plan, c.plan? = some plan ∧ v = ⟨generation, some plan.ready⟩) ∧
      (∀ err, u.answer c = .error err → v = u) ∧
      (∀ plan, c = .install plan → ∀ err, u.answer c = .error err ↔
        ∃ fault, err = .preparation fault ∧ plan.Fails fault) ∧
      ∀ r, c = .adopt r →
        ((∃ reason, u.answer c = .error (.compileFailed reason)) ↔
          r.success = false ∨ r.plan = none) ∧
        ∀ fault, u.answer c = .error (.preparation fault) ↔
          r.success = true ∧ ∃ plan, r.plan = some plan ∧ plan.Fails fault := by
  refine ⟨generation_run s calls, answers_history s calls, current_run s calls, ?_⟩
  intro before c rest _ u v
  have hv : v = u.after c := run_concat ..
  refine ⟨fun generation hanswer => ?_, fun err hanswer => hv.trans (after_of_error hanswer),
    ?_, ?_⟩
  · rw [hv]
    exact after_of_ok hanswer
  · rintro plan rfl err
    exact answer_eq_error.trans install_eq_error
  · rintro r rfl
    exact ⟨(exists_congr fun _ => answer_eq_error).trans adopt_eq_compileFailed,
      fun fault => answer_eq_error.trans adopt_eq_preparation⟩

end Slot

end FrameGraph
