import Mathlib.Logic.Function.Basic
import BitlockerForensic.Std.Lts

/-!
# Values behind a mutex

Threads that share a value through a mutex.  The lock is a flag; a holder that
panics leaves it poisoned, and each caller decides what to do with a poisoned
guard.  Whatever the interleaving, the calls take effect one after another in the
order in which they finish, each between its own invocation and its response.
-/

namespace Mutex

variable {θ σ κ φ ρ : Type}

/-- The code of the calls on a value of type `σ`.  `enter` runs before the lock is
asked for and may answer at once; `resume` continues with the guard, which comes
marked as poisoned or not; `work` is one step under the lock. -/
structure Code (σ κ φ ρ : Type) where
  enter : κ → φ ⊕ ρ
  resume : Bool → φ → φ
  work : φ → σ → (φ ⊕ ρ) × σ
  /-- The results that unwind through the guard. -/
  panicked : ρ → Bool

/-! ## Threads -/

/-- Where a thread is in a call. -/
inductive Phase (κ φ ρ : Type) where
  | idle
  | called (call : κ)
  | inside (call : κ) (frame : φ)
  | finished (call : κ) (out : ρ)

/-- The call that a thread is in. -/
def Phase.current : Phase κ φ ρ → Option κ
  | idle => none
  | called call | inside call _ | finished call _ => some call

structure State (θ σ κ φ ρ : Type) where
  value : σ
  locked : Bool
  poisoned : Bool
  threads : θ → Phase κ φ ρ

inductive Event (θ κ ρ : Type) where
  | invoke (t : θ) (call : κ)
  | lock (t : θ)
  | work (t : θ)
  | finish (t : θ) (call : κ) (out : ρ)
  | respond (t : θ) (call : κ) (out : ρ)

def Event.thread : Event θ κ ρ → θ
  | invoke t _ | lock t | work t | finish t _ _ | respond t _ _ => t

def State.start (value : σ) : State θ σ κ φ ρ := ⟨value, false, false, fun _ ↦ .idle⟩

def State.Inside (c : State θ σ κ φ ρ) (t : θ) : Prop :=
  ∃ call frame, c.threads t = .inside call frame

section Steps

variable [DecidableEq θ]

def State.set (c : State θ σ κ φ ρ) (t : θ) (phase : Phase κ φ ρ) : State θ σ κ φ ρ :=
  { c with threads := Function.update c.threads t phase }

@[simp] theorem State.set_self (c : State θ σ κ φ ρ) (t : θ) (phase : Phase κ φ ρ) :
    (c.set t phase).threads t = phase := by
  simp [State.set]

@[simp] theorem State.set_of_ne (c : State θ σ κ φ ρ) {t u : θ} (h : u ≠ t)
    (phase : Phase κ φ ρ) : (c.set t phase).threads u = c.threads u := by
  simp [State.set, h]

variable (code : Code σ κ φ ρ)

/-- One step of one thread.  `lock` waits until the flag is clear; the last step
under the lock clears it, and a panic there poisons the mutex. -/
inductive Step : State θ σ κ φ ρ → Event θ κ ρ → State θ σ κ φ ρ → Prop where
  | invoke {c : State θ σ κ φ ρ} {t : θ} {call : κ} (hphase : c.threads t = .idle) :
      Step c (.invoke t call) (c.set t (.called call))
  | answer {c : State θ σ κ φ ρ} {t : θ} {call : κ} {out : ρ}
      (hphase : c.threads t = .called call) (henter : code.enter call = .inr out) :
      Step c (.finish t call out) (c.set t (.finished call out))
  | lock {c : State θ σ κ φ ρ} {t : θ} {call : κ} {frame : φ}
      (hphase : c.threads t = .called call) (henter : code.enter call = .inl frame)
      (hfree : c.locked = false) :
      Step c (.lock t)
        { c.set t (.inside call (code.resume c.poisoned frame)) with locked := true }
  | work {c : State θ σ κ φ ρ} {t : θ} {call : κ} {frame frame' : φ} {value : σ}
      (hphase : c.threads t = .inside call frame)
      (hwork : code.work frame c.value = (.inl frame', value)) :
      Step c (.work t) { c.set t (.inside call frame') with value := value }
  | unlock {c : State θ σ κ φ ρ} {t : θ} {call : κ} {frame : φ} {out : ρ} {value : σ}
      (hphase : c.threads t = .inside call frame)
      (hwork : code.work frame c.value = (.inr out, value)) :
      Step c (.finish t call out)
        { c.set t (.finished call out) with
          value := value
          locked := false
          poisoned := c.poisoned || code.panicked out }
  | respond {c : State θ σ κ φ ρ} {t : θ} {call : κ} {out : ρ}
      (hphase : c.threads t = .finished call out) :
      Step c (.respond t call out) (c.set t .idle)

end Steps

/-! ## One call after another -/

variable (code : Code σ κ φ ρ)

/-- The steps under the lock up to a result. -/
inductive Works : φ → σ → ρ → σ → Prop where
  | last {frame : φ} {s s' : σ} {out : ρ} (hwork : code.work frame s = (.inr out, s')) :
      Works frame s out s'
  | next {frame frame' : φ} {s s' s'' : σ} {out : ρ}
      (hwork : code.work frame s = (.inl frame', s')) (hrest : Works frame' s' out s'') :
      Works frame s out s''

/-- A whole call by itself, on the value and the poison flag. -/
inductive Serial : σ × Bool → κ × ρ → σ × Bool → Prop where
  | answer {s : σ} {poisoned : Bool} {call : κ} {out : ρ} (henter : code.enter call = .inr out) :
      Serial (s, poisoned) (call, out) (s, poisoned)
  | guarded {s s' : σ} {poisoned : Bool} {call : κ} {frame : φ} {out : ρ}
      (henter : code.enter call = .inl frame)
      (hworks : Works code (code.resume poisoned frame) s out s') :
      Serial (s, poisoned) (call, out) (s', poisoned || code.panicked out)

def Event.effect : Event θ κ ρ → Option (κ × ρ)
  | finish _ call out => some (call, out)
  | _ => none

/-- The serial state that a state of the threads stands for: its own when the lock
is free, and otherwise the one that the holder, and no other thread, found when it
took the lock. -/
inductive StandsFor (c : State θ σ κ φ ρ) : σ × Bool → Prop where
  | free (hlocked : c.locked = false) (hinside : ∀ t, ¬ c.Inside t) :
      StandsFor c (c.value, c.poisoned)
  | held {s : σ} {t : θ} {call : κ} {entry frame : φ} (hlocked : c.locked = true)
      (hphase : c.threads t = .inside call frame) (honly : ∀ u, c.Inside u → u = t)
      (henter : code.enter call = .inl entry)
      (hsofar : ∀ out s', Works code frame c.value out s' →
        Works code (code.resume c.poisoned entry) s out s') :
      StandsFor c (s, c.poisoned)

variable {code}

theorem StandsFor.exclusive {c : State θ σ κ φ ρ} {s : σ × Bool} (h : StandsFor code c s)
    {t u : θ} (ht : c.Inside t) (hu : c.Inside u) : t = u := by
  cases h with
  | free _ hinside => exact absurd ht (hinside t)
  | held _ _ honly _ _ => rw [honly t ht, honly u hu]

theorem StandsFor.start (value : σ) :
    StandsFor code (State.start value : State θ σ κ φ ρ) (value, false) := by
  refine .free rfl ?_
  rintro t ⟨call, frame, hphase⟩
  cases hphase

variable [DecidableEq θ]

theorem State.inside_of_ne {c : State θ σ κ φ ρ} {t u : θ} {phase : Phase κ φ ρ} (hne : u ≠ t)
    (h : (c.set t phase).Inside u) : c.Inside u := by
  obtain ⟨call, frame, hphase⟩ := h
  rw [State.set_of_ne c hne] at hphase
  exact ⟨call, frame, hphase⟩

theorem State.inside_set {c : State θ σ κ φ ρ} {t u : θ} {phase : Phase κ φ ρ}
    (hout : ∀ call frame, phase ≠ .inside call frame) (h : (c.set t phase).Inside u) :
    c.Inside u ∧ u ≠ t := by
  have hne : u ≠ t := by
    rintro rfl
    obtain ⟨call, frame, hphase⟩ := h
    rw [State.set_self] at hphase
    exact hout call frame hphase
  exact ⟨State.inside_of_ne hne h, hne⟩

/-- A thread that is not under the lock changes its phase. -/
theorem StandsFor.set {c : State θ σ κ φ ρ} {s : σ × Bool} (h : StandsFor code c s) {t : θ}
    {phase : Phase κ φ ρ} (ht : ¬ c.Inside t) (hout : ∀ call frame, phase ≠ .inside call frame) :
    StandsFor code (c.set t phase) s := by
  cases h with
  | free hlocked hinside =>
      exact .free hlocked fun u hu ↦ hinside u (State.inside_set hout hu).1
  | @held s holder call entry frame hlocked hphase honly henter hsofar =>
      have hne : holder ≠ t := by
        rintro rfl
        exact ht ⟨call, frame, hphase⟩
      refine .held hlocked ?_ (fun u hu ↦ honly u (State.inside_set hout hu).1) henter hsofar
      rw [State.set_of_ne c hne, hphase]

/-- Each step of the threads is no step of the serial object, or the call that
finishes with it. -/
theorem StandsFor.step {c c' : State θ σ κ φ ρ} {s : σ × Bool} {ev : Event θ κ ρ}
    (h : StandsFor code c s) (hstep : Step code c ev c') :
    ∃ s', Lts.Run (Serial code) s ev.effect.toList s' ∧ StandsFor code c' s' := by
  have hnot : ∀ {t : θ} {phase : Phase κ φ ρ}, c.threads t = phase →
      (∀ call frame, phase ≠ .inside call frame) → ¬ c.Inside t := by
    rintro t phase hphase hout ⟨call, frame, hinside⟩
    exact hout call frame (hphase.symm.trans hinside)
  cases hstep with
  | invoke hphase =>
      exact ⟨s, .nil s, h.set (hnot hphase (by simp)) (by simp)⟩
  | answer hphase henter =>
      exact ⟨s, .single (.answer henter), h.set (hnot hphase (by simp)) (by simp)⟩
  | respond hphase =>
      exact ⟨s, .nil s, h.set (hnot hphase (by simp)) (by simp)⟩
  | @lock t call frame hphase henter hfree =>
      refine ⟨s, .nil s, ?_⟩
      cases h with
      | held hlocked _ _ _ _ =>
          rw [hfree] at hlocked
          cases hlocked
      | free _ hinside =>
          refine .held rfl (State.set_self c t _) ?_ henter fun _ _ hworks ↦ hworks
          intro u hu
          by_contra hne
          exact hinside u (State.inside_of_ne hne hu)
  | @work t call frame frame' value hphase hwork =>
      refine ⟨s, .nil s, ?_⟩
      cases h with
      | free _ hinside => exact absurd ⟨call, frame, hphase⟩ (hinside t)
      | @held s holder call₀ entry frame₀ hlocked hphase₀ honly henter hsofar =>
          obtain rfl : t = holder := honly t ⟨call, frame, hphase⟩
          cases hphase₀.symm.trans hphase
          refine .held hlocked (State.set_self c t _) ?_ henter
            fun out s' hworks ↦ hsofar out s' (.next hwork hworks)
          intro u hu
          by_contra hne
          exact hne (honly u (State.inside_of_ne hne hu))
  | @unlock t call frame out value hphase hwork =>
      cases h with
      | free _ hinside => exact absurd ⟨call, frame, hphase⟩ (hinside t)
      | @held s holder call₀ entry frame₀ hlocked hphase₀ honly henter hsofar =>
          obtain rfl : t = holder := honly t ⟨call, frame, hphase⟩
          cases hphase₀.symm.trans hphase
          refine ⟨_, .single (.guarded henter (hsofar out value (.last hwork))), .free rfl ?_⟩
          intro u hu
          have hout : ∀ call' frame',
              (Phase.finished call out : Phase κ φ ρ) ≠ .inside call' frame' := by
            intro call' frame' heq
            cases heq
          obtain ⟨hu, hne⟩ := State.inside_set hout hu
          exact hne (honly u hu)

/-- Every run of the threads has the effect of its finished calls, one after
another, and at most one thread is under the lock. -/
theorem exists_serial {value : σ} {c : State θ σ κ φ ρ} {evs : List (Event θ κ ρ)}
    (hrun : Lts.Run (Step code) (State.start value) evs c) :
    ∃ s, Lts.Run (Serial code) (value, false) (evs.filterMap Event.effect) s ∧
      StandsFor code c s := by
  have hsim : ∀ (c : State θ σ κ φ ρ) (s : σ × Bool) (ev : Event θ κ ρ) (c' : State θ σ κ φ ρ),
      StandsFor code c s → Step code c ev c' →
        ∃ s', Lts.Run (Serial code) s ev.effect.toList s' ∧ StandsFor code c' s' :=
    fun _ _ _ _ h hstep ↦ h.step hstep
  exact Lts.Run.simulate_effects Event.effect hsim hrun (StandsFor.start value)

/-! ## The order of a thread's events -/

def Event.invocation : Event θ κ ρ → Option κ
  | invoke _ call => some call
  | _ => none

def Event.response : Event θ κ ρ → Option (κ × ρ)
  | respond _ call out => some (call, out)
  | _ => none

def eventsOf (t : θ) (evs : List (Event θ κ ρ)) : List (Event θ κ ρ) :=
  evs.filter fun ev ↦ ev.thread = t

/-- The call that a thread has made and not yet finished. -/
def Phase.pending : Phase κ φ ρ → Option κ
  | called call | inside call _ => some call
  | _ => none

/-- The call that a thread has finished and not yet returned from. -/
def Phase.returning : Phase κ φ ρ → Option (κ × ρ)
  | finished call out => some (call, out)
  | _ => none

theorem Step.threads_of_ne {c c' : State θ σ κ φ ρ} {ev : Event θ κ ρ} (h : Step code c ev c')
    {t : θ} (hne : t ≠ ev.thread) : c'.threads t = c.threads t := by
  cases h <;> exact State.set_of_ne c hne _

/-- A thread without events in a run stays where it is. -/
theorem threads_of_run {c c' : State θ σ κ φ ρ} {evs : List (Event θ κ ρ)}
    (hrun : Lts.Run (Step code) c evs c') {t : θ} (hne : ∀ ev ∈ evs, t ≠ ev.thread) :
    c'.threads t = c.threads t := by
  induction hrun with
  | nil c => rfl
  | cons hstep _ ih =>
      obtain ⟨hfirst, hrest⟩ := List.forall_mem_cons.mp hne
      rw [ih hrest, hstep.threads_of_ne hfirst]

/-- What a thread carries from one event to the next: the call it has made, then
the result it has got. -/
theorem Step.carries {c c' : State θ σ κ φ ρ} {ev : Event θ κ ρ} (h : Step code c ev c') :
    (c.threads ev.thread).pending.toList ++ ev.invocation.toList =
        ev.effect.toList.map Prod.fst ++ (c'.threads ev.thread).pending.toList ∧
      (c.threads ev.thread).returning.toList ++ ev.effect.toList =
        ev.response.toList ++ (c'.threads ev.thread).returning.toList := by
  cases h with
  | invoke hphase | answer hphase _ | lock hphase _ _ | work hphase _ | unlock hphase _
  | respond hphase =>
      simp [Event.thread, Event.invocation, Event.effect, Event.response, hphase, Phase.pending,
        Phase.returning]

/-- Along a run, the calls that a thread finishes are the calls it has made, in
order, and the results it returns are those its calls have finished with. -/
theorem program_order {c c' : State θ σ κ φ ρ} {evs : List (Event θ κ ρ)}
    (hrun : Lts.Run (Step code) c evs c') (t : θ) :
    (c.threads t).pending.toList ++ (eventsOf t evs).filterMap Event.invocation =
        ((eventsOf t evs).filterMap Event.effect).map Prod.fst ++
          (c'.threads t).pending.toList ∧
      (c.threads t).returning.toList ++ (eventsOf t evs).filterMap Event.effect =
        (eventsOf t evs).filterMap Event.response ++ (c'.threads t).returning.toList := by
  simp only [List.filterMap_eq_flatMap_toList]
  induction hrun with
  | nil c => simp [eventsOf]
  | @cons c₀ c₁ c₂ ev evs hstep _ ih =>
      by_cases hown : t = ev.thread
      · subst hown
        obtain ⟨hcall, hresult⟩ := hstep.carries
        have hhead : eventsOf ev.thread (ev :: evs) = ev :: eventsOf ev.thread evs := by
          simp [eventsOf]
        rw [hhead]
        simp only [List.flatMap_cons, List.map_append]
        constructor
        · rw [← List.append_assoc, hcall, List.append_assoc, ih.1, List.append_assoc]
        · rw [← List.append_assoc, hresult, List.append_assoc, ih.2, List.append_assoc]
      · have hskip : eventsOf t (ev :: evs) = eventsOf t evs := by
          simp [eventsOf, Ne.symm hown]
        rw [hskip, ← hstep.threads_of_ne hown]
        exact ih

/-- From the start, each thread finishes its calls in the order in which it makes
them, and returns from them in that order, each time after it has finished. -/
theorem program_order_start {value : σ} {c : State θ σ κ φ ρ} {evs : List (Event θ κ ρ)}
    (hrun : Lts.Run (Step code) (State.start value) evs c) (t : θ) :
    (eventsOf t evs).filterMap Event.response <+: (eventsOf t evs).filterMap Event.effect ∧
      ((eventsOf t evs).filterMap Event.effect).map Prod.fst <+:
        (eventsOf t evs).filterMap Event.invocation := by
  obtain ⟨hcalls, hresults⟩ := program_order hrun t
  exact ⟨⟨_, hresults.symm⟩, ⟨_, hcalls.symm⟩⟩

theorem mem_effects_of_respond {value : σ} {c : State θ σ κ φ ρ} {evs : List (Event θ κ ρ)}
    (hrun : Lts.Run (Step code) (State.start value) evs c) {t : θ} {call : κ} {out : ρ}
    (hmem : .respond t call out ∈ evs) : (call, out) ∈ evs.filterMap Event.effect := by
  have hresponse : (call, out) ∈ (eventsOf t evs).filterMap Event.response :=
    List.mem_filterMap.mpr ⟨_, List.mem_filter.mpr ⟨hmem, by simp [Event.thread]⟩, rfl⟩
  have heffect := (program_order_start hrun t).1.subset hresponse
  exact (List.filter_sublist.filterMap _).subset heffect

/-! ## Progress -/

variable (code) in
/-- The steps under the lock come to an end: the frames that calls start from are
valid, and each step leaves a valid frame of smaller rank. -/
structure Terminating (valid : φ → Prop) (rank : φ → ℕ) : Prop where
  enter : ∀ {call frame}, code.enter call = .inl frame → ∀ poisoned,
    valid (code.resume poisoned frame)
  work : ∀ {frame frame' s s'}, valid frame → code.work frame s = (.inl frame', s') →
    valid frame' ∧ rank frame' < rank frame

def State.AllValid (valid : φ → Prop) (c : State θ σ κ φ ρ) : Prop :=
  ∀ t call frame, c.threads t = .inside call frame → valid frame

namespace Terminating

variable {valid : φ → Prop} {rank : φ → ℕ}

theorem allValid (h : Terminating code valid rank) {value : σ} {c : State θ σ κ φ ρ}
    {evs : List (Event θ κ ρ)} (hrun : Lts.Run (Step code) (State.start value) evs c) :
    c.AllValid valid := by
  refine hrun.invariant ?_ ?_
  · intro c ev c' hvalid hstep u call' frame' hphase'
    by_cases hown : u = ev.thread
    · subst hown
      cases hstep with
      | invoke | answer | unlock | respond => simp [Event.thread] at hphase'
      | lock hphase henter hfree =>
          simp only [Event.thread, State.set_self] at hphase'
          cases hphase'
          exact h.enter henter _
      | work hphase hwork =>
          simp only [Event.thread, State.set_self] at hphase'
          cases hphase'
          exact (h.work (hvalid _ _ _ hphase) hwork).1
    · rw [hstep.threads_of_ne hown] at hphase'
      exact hvalid u call' frame' hphase'
  · intro t call frame hphase
    cases hphase

/-- The holder of the lock can always go on and let it go, by itself. -/
theorem exists_unlock (h : Terminating code valid rank) {c : State θ σ κ φ ρ} {t : θ} {call : κ}
    {frame : φ} (hphase : c.threads t = .inside call frame) (hvalid : valid frame) :
    ∃ evs c' out, Lts.Run (Step code) c evs c' ∧ c'.locked = false ∧
      c'.threads t = .finished call out ∧ (∀ u, u ≠ t → c'.threads u = c.threads u) ∧
      ∀ ev ∈ evs, ev.thread = t := by
  induction hrank : rank frame using Nat.strongRecOn generalizing c frame with
  | ind n ih =>
      rcases hwork : code.work frame c.value with ⟨frame' | out, value⟩
      · obtain ⟨c₁, hstep, hphase₁⟩ : ∃ c₁, Step code c (.work t) c₁ ∧
            c₁.threads t = .inside call frame' :=
          ⟨_, .work hphase hwork, State.set_self c t _⟩
        obtain ⟨hvalid', hlt⟩ := h.work hvalid hwork
        rw [hrank] at hlt
        obtain ⟨evs, c', out, hrun, hfree, hdone, hothers, hown⟩ := ih _ hlt hphase₁ hvalid' rfl
        refine ⟨_, c', out, .cons hstep hrun, hfree, hdone, ?_,
          List.forall_mem_cons.mpr ⟨rfl, hown⟩⟩
        intro u hu
        rw [hothers u hu, hstep.threads_of_ne hu]
      · refine ⟨_, _, out, .single (.unlock hphase hwork), rfl, State.set_self c t _, ?_, ?_⟩
        · intro u hu
          exact State.set_of_ne c hu _
        · exact List.forall_mem_singleton.mpr rfl

/-- A thread that has called and finds the lock free can finish, by itself. -/
theorem exists_finish (h : Terminating code valid rank) {c : State θ σ κ φ ρ} {t : θ} {call : κ}
    (hphase : c.threads t = .called call) (hfree : c.locked = false) :
    ∃ evs c' out, Lts.Run (Step code) c evs c' ∧ c'.threads t = .finished call out ∧
      ∀ ev ∈ evs, ev.thread = t := by
  rcases henter : code.enter call with frame | out
  · obtain ⟨c₁, hstep, hphase₁⟩ : ∃ c₁, Step code c (.lock t) c₁ ∧
        c₁.threads t = .inside call (code.resume c.poisoned frame) :=
      ⟨_, .lock hphase henter hfree, State.set_self c t _⟩
    obtain ⟨evs, c', out, hrun, -, hdone, -, hown⟩ :=
      h.exists_unlock hphase₁ (h.enter henter c.poisoned)
    exact ⟨_, c', out, .cons hstep hrun, hdone, List.forall_mem_cons.mpr ⟨rfl, hown⟩⟩
  · exact ⟨_, _, out, .single (.answer hphase henter), State.set_self c t _,
      List.forall_mem_singleton.mpr rfl⟩

/-- No deadlock: from every state that the threads reach, each call can be brought
to its response by its own thread and the thread that is under the lock. -/
theorem completes (h : Terminating code valid rank) {value : σ} {c : State θ σ κ φ ρ}
    {evs : List (Event θ κ ρ)} (hrun : Lts.Run (Step code) (State.start value) evs c) {t : θ}
    {call : κ} (hcall : (c.threads t).current = some call) :
    ∃ more c' out, Lts.Run (Step code) c more c' ∧ .respond t call out ∈ more ∧
      c'.threads t = .idle ∧ ∀ ev ∈ more, ev.thread = t ∨ c.Inside ev.thread := by
  -- It is enough to bring the call to its result.
  suffices hfinish : ∃ more c₁ out, Lts.Run (Step code) c more c₁ ∧
      c₁.threads t = .finished call out ∧ ∀ ev ∈ more, ev.thread = t ∨ c.Inside ev.thread by
    obtain ⟨more, c₁, out, hmore, hdone, hown⟩ := hfinish
    refine ⟨more ++ [.respond t call out], _, out, hmore.append (.single (.respond hdone)),
      by simp, State.set_self c₁ t _, ?_⟩
    intro ev hev
    rcases List.mem_append.mp hev with hev | hev
    · exact hown ev hev
    · rw [List.mem_singleton.mp hev]
      exact Or.inl rfl
  have hvalid := h.allValid hrun
  obtain ⟨s, -, hstands⟩ := exists_serial hrun
  cases hphase : c.threads t with
  | idle =>
      rw [hphase] at hcall
      cases hcall
  | finished call' out =>
      rw [hphase] at hcall
      cases hcall
      exact ⟨[], c, out, .nil c, hphase, by simp⟩
  | inside call' frame =>
      rw [hphase] at hcall
      cases hcall
      obtain ⟨more, c₁, out, hmore, -, hdone, -, hown⟩ :=
        h.exists_unlock hphase (hvalid t call frame hphase)
      exact ⟨more, c₁, out, hmore, hdone, fun ev hev ↦ Or.inl (hown ev hev)⟩
  | called call' =>
      rw [hphase] at hcall
      cases hcall
      cases hstands with
      | free hlocked _ =>
          obtain ⟨more, c₁, out, hmore, hdone, hown⟩ := h.exists_finish hphase hlocked
          exact ⟨more, c₁, out, hmore, hdone, fun ev hev ↦ Or.inl (hown ev hev)⟩
      | @held s holder call₀ entry frame hlocked hholder _ _ _ =>
          -- The holder lets the lock go first.
          have hne : t ≠ holder := by
            rintro rfl
            rw [hphase] at hholder
            cases hholder
          obtain ⟨evs₁, c₁, -, hrun₁, hfree, -, hothers, hown₁⟩ :=
            h.exists_unlock hholder (hvalid holder call₀ frame hholder)
          obtain ⟨evs₂, c₂, out, hrun₂, hdone, hown₂⟩ :=
            h.exists_finish ((hothers t hne).trans hphase) hfree
          refine ⟨evs₁ ++ evs₂, c₂, out, hrun₁.append hrun₂, hdone, ?_⟩
          intro ev hev
          rcases List.mem_append.mp hev with hev | hev
          · rw [hown₁ ev hev]
            exact Or.inr ⟨call₀, frame, hholder⟩
          · exact Or.inl (hown₂ ev hev)

/-- Two threads that call at the same time can both be brought to their responses. -/
theorem both_respond (h : Terminating code valid rank) (value : σ) {t u : θ} (htu : t ≠ u)
    (call call' : κ) :
    ∃ evs c out out', Lts.Run (Step code) (State.start value)
        (.invoke t call :: .invoke u call' :: evs) c ∧
      .respond t call out ∈ evs ∧ .respond u call' out' ∈ evs := by
  obtain ⟨c, hcalls, hfirst, hsecond⟩ : ∃ c : State θ σ κ φ ρ,
      Lts.Run (Step code) (State.start value) [.invoke t call, .invoke u call'] c ∧
        c.threads t = .called call ∧ c.threads u = .called call' := by
    refine ⟨_, .cons (.invoke rfl) (.single (.invoke ?_)), ?_, State.set_self _ u _⟩
    · exact State.set_of_ne _ htu.symm _
    · rw [State.set_of_ne _ htu, State.set_self]
  obtain ⟨more, c₁, out, hmore, hmem, -, hown⟩ := h.completes hcalls (congrArg _ hfirst)
  have hstays : c₁.threads u = c.threads u := by
    apply threads_of_run hmore
    rintro ev hev rfl
    rcases hown ev hev with heq | ⟨call₀, frame, hinside⟩
    · exact htu heq.symm
    · rw [hsecond] at hinside
      cases hinside
  obtain ⟨more', c₂, out', hmore', hmem', -, -⟩ :=
    h.completes (hcalls.append hmore) (congrArg _ (hstays.trans hsecond))
  exact ⟨more ++ more', c₂, out, out', (hcalls.append hmore).append hmore',
    List.mem_append_left _ hmem, List.mem_append_right _ hmem'⟩

end Terminating

end Mutex
