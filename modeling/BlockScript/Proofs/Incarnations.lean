import BlockScript.Proofs.Fates
import BlockScript.Proofs.Roster
import BlockScript.Proofs.Spots
import Mathlib.Data.List.Count

/-!
# Threads that lose their seat

A thread at work can lose its seat by a statement of its own: an event starts its script over,
everything stops, or its target is deleted. Then it executes nothing more, in this turn or later,
and what the statement put into the seat stays there.

* `Act.Sends`: the event that goes out by a statement;
* `Act.Leaves`: what a statement leaves in the seat of the thread that executes it;
* `Act.exec_leaves`: that is what it leaves;
* `World.Reaches.gone`: a thread that is gone does not come back;
* `World.unseated_for_good`: what holds of a thread that loses its seat, in every run.
-/

namespace BlockScript

/-! ## 1. How often an event starts a script -/

namespace Machine

variable {H : Type}

/-- Those who live have the identities that the order lists. -/
theorem Roster.map_id_living {originals : List Target} {clones : List TargetId} {m : Machine H}
    (h : m.Roster originals clones) : m.living.map (·.id) = m.order := by
  unfold living
  rw [List.map_filterMap]
  have hid (id : TargetId) (hmem : id ∈ m.order) : (m.target? id).map (·.id) = some id := by
    obtain ⟨t, ht⟩ := h.mem_order.mp hmem
    rw [ht, Option.map_some, h.id id t ht]
  exact (List.filterMap_congr hid).trans List.filterMap_some

/-- Everyone who hears of an event hears of it once. -/
theorem nodup_audience {I : Invariant} {originals : List Target} {clones : List TargetId}
    {m : Machine H} (h : m.Roster originals clones) (hm : m.Sound I) : m.audience.Nodup := by
  have hsprites : ((m.living.filter fun t => !t.isStage).map (·.id)).Nodup := by
    refine h.nodup_order.sublist ?_
    rw [← h.map_id_living]
    exact List.filter_sublist.map _
  refine List.nodup_append.mpr ⟨hsprites, List.nodup_singleton _, ?_⟩
  rintro id hid _ hstage rfl
  cases List.mem_singleton.mp hstage
  obtain ⟨t, ht, heq⟩ := List.mem_map.mp hid
  obtain ⟨hliving, hsprite⟩ := List.mem_filter.mp ht
  obtain ⟨id, -, htarget⟩ := List.mem_filterMap.mp hliving
  obtain ⟨stage, hstage, hisStage⟩ := hm.stage
  have hsame : t = stage := by
    have hid : id = m.stage := (h.id id t htarget).symm.trans heq
    rw [hid] at htarget
    exact Option.some.inj (htarget.symm.trans hstage)
  rw [hsame, hisStage] at hsprite
  cases hsprite

/-- The scripts of a target among those that start. -/
theorem count_scriptsOf {m : Machine H} {id : TargetId} {t : Target}
    (ht : m.target? id = some t) (e : Event) (base : Label) :
    (m.scriptsOf e id).count (id, base) = (t.program.startedBy e).count base := by
  unfold scriptsOf
  rw [ht]
  exact List.count_map_of_injective _ _ (fun _ _ heq => congrArg Prod.snd heq) base

theorem count_scriptsOf_of_ne {m : Machine H} {id other : TargetId} (hne : other ≠ id) (e : Event)
    (base : Label) : (m.scriptsOf e other).count (id, base) = 0 := by
  refine List.count_eq_zero.mpr fun hmem => ?_
  unfold scriptsOf at hmem
  split at hmem
  · cases hmem
  · obtain ⟨_, -, heq⟩ := List.mem_map.mp hmem
    exact hne (congrArg Prod.fst heq)

/-- **An event that starts a script starts it as often as the program of its target says.** -/
theorem count_scriptsFor {m : Machine H} (hnodup : m.audience.Nodup) {id : TargetId} {t : Target}
    (ht : m.target? id = some t) {e : Event} {base : Label} (hmem : (id, base) ∈ m.scriptsFor e) :
    (m.scriptsFor e).count (id, base) = (t.program.startedBy e).count base := by
  have hcount (ids : List TargetId) (hids : ids.Nodup) :
      (ids.flatMap (m.scriptsOf e)).count (id, base) =
        if id ∈ ids then (t.program.startedBy e).count base else 0 := by
    induction ids with
    | nil => rfl
    | cons other rest ih =>
      obtain ⟨hnot, hrest⟩ := List.nodup_cons.mp hids
      rw [List.flatMap_cons, List.count_append, ih hrest]
      by_cases heq : other = id
      · subst heq
        rw [count_scriptsOf ht, if_neg hnot, if_pos List.mem_cons_self]
        rfl
      · rw [count_scriptsOf_of_ne heq, Nat.zero_add]
        simp only [List.mem_cons, or_iff_right (Ne.symm heq)]
  have hears : id ∈ m.audience := by
    by_contra hdeaf
    have hnone := (hcount m.audience hnodup).trans (if_neg hdeaf)
    exact List.count_eq_zero.mp hnone hmem
  exact (hcount m.audience hnodup).trans (if_pos hears)

/-- An event leaves alone whom it starts scripts for. -/
theorem scriptsFor_trigger (m : Machine H) (e e' : Event) :
    (m.trigger e).2.scriptsFor e' = m.scriptsFor e' := by
  rw [trigger_eq]
  rfl

end Machine

/-! ## 2. Statements that send an event -/

namespace Machine

variable {H : Type}

theorem Aside.trans {a b c : Machine H} (h : a.Aside b) (h' : b.Aside c) : a.Aside c :=
  ⟨h'.targets.trans h.targets, h'.order.trans h.order, h'.free.trans h.free,
    h'.stage.trans h.stage, h'.queue.trans h.queue, h'.running.trans h.running,
    h'.options.trans h.options, h'.lastGroup.trans h.lastGroup, h'.clones.trans h.clones⟩

variable [Host H]

/-- The machine when an event goes out: nothing has become of threads, and of targets nothing that
    matters. -/
structure Poised (m m₀ : Machine H) : Prop where
  queue : m₀.queue = m.queue
  running : m₀.running = m.running
  lastGroup : m₀.lastGroup = m.lastGroup
  continues : ∀ I, m.Continues I m₀
  alters : ∀ own seat s, Alters own seat s m m₀

theorem Aside.poised {m m₀ : Machine H} (h : m.Aside m₀) : m.Poised m₀ :=
  ⟨h.queue, h.running, h.lastGroup, fun _ => continues_of_eq h.targets h.stage h.free h.queue,
    fun _ _ _ => alters_aside h⟩

end Machine

/-- Whether the statement sends an event and then waits for the threads that it starts. -/
def Stmt.awaits : Stmt → Bool
  | .broadcast _ wait | .switchBackdrop _ wait => wait
  | _ => false

namespace Act

variable {H : Type}

theorem aside_sensing {r : Prop} {α : Type} {x : Act H α} (h : Sensing r α x) :
    Keeps (fun t t' => t.machine.Aside t'.machine) x := by
  intro t
  have hsame (heq : (x.after t).machine = t.machine) : t.machine.Aside (x.after t).machine := by
    rw [heq]
    exact .refl _
  cases h with
  | current => exact hsame (by rw [after_current])
  | owner s => exact hsame (by rw [after_owner])
  | machine | thread => exact .refl _
  | look f _ hx => exact hsame (by rw [after_of_ok (hx t)])
  | knownCast slot e =>
    obtain ⟨calls, hafter, -⟩ := after_knownCast slot e t
    exact hsame (by rw [hafter])
  | roll | now | timer | moment | askHost => exact ⟨rfl, rfl, rfl, rfl, rfl, rfl, rfl, rfl, rfl⟩

/-- To evaluate something leaves targets and threads alone. -/
theorem Made.aside {r : Prop} {α : Type} {x : Act H α} (h : Made (Sensing r) α x) :
    Keeps (fun t t' => t.machine.Aside t'.machine) x :=
  h.keeps (fun t => .refl t.machine) (fun _ _ _ => .trans) fun _ _ => aside_sensing

variable [Host H]

/-- The event that goes out by a statement: a message by its text, a backdrop by the costume that
    the stage wears then. -/
inductive Sends : Stmt → Turn H → Turn H → Event → Prop
  | message {message : Expr} {t t₁ : Turn H} {text : String}
      (h : evalText message t = .ok text t₁) (wait : Bool) (t' : Turn H) :
      Sends (.broadcast message wait) t t' (.ofMessage text)
  | backdrop (backdrop : Expr) (wait : Bool) (t t' : Turn H) :
      Sends (.switchBackdrop backdrop wait) t t'
        (.ofBackdrop ((t'.machine.stage?.map Target.costumeName).getD ""))

/-- **By a statement that sends one, an event goes out.** The thread goes on if it has its seat
    still, and one that waits remembers the group. -/
theorem exec_sends {s : Stmt} (hs : s.sends = true) {t t' : Turn H} {c : Control}
    (h : exec s t = .ok c t') :
    ∃ m₀ e, Sends s t t' e ∧ t.machine.Poised m₀ ∧ t'.machine = (m₀.trigger e).2 ∧
      t'.seat = t.seat ∧
      c = (if t'.machine.isRunning t.seat then .onward [] else .leave .detached) ∧
      (s.awaits = true → t'.thread.registers.group = some t'.machine.lastGroup) := by
  -- the state in which the event goes out, and what is known of it
  have hsent {wait : Bool} {send : Machine H → GroupId × Machine H} {t₁ : Turn H}
      {m₀ : Machine H} {e : Event} (h : execEvent wait send t₁ = .ok c t')
      (hseat : t₁.seat = t.seat) (heq : send t₁.machine = m₀.trigger e) :
      t'.machine = (m₀.trigger e).2 ∧ t'.seat = t.seat ∧
        c = (if t'.machine.isRunning t.seat then .onward [] else .leave .detached) ∧
        (wait = true → t'.thread.registers.group = some t'.machine.lastGroup) := by
    rw [execEvent_apply, heq, hseat] at h
    cases h
    refine ⟨rfl, rfl, rfl, ?_⟩
    rintro rfl
    have hgroup : (m₀.trigger e).2.lastGroup = m₀.lastGroup + 1 := by rw [Machine.trigger_eq]
    show some (m₀.trigger e).1 = some (m₀.trigger e).2.lastGroup
    rw [hgroup]
    rfl
  cases s with
  | broadcast message wait =>
    obtain ⟨text, t₁, h₁, h⟩ := bind_eq_ok.mp h
    have haside := (made_evalText message.frees_true).aside.of_ok h₁
    have hplace := (made_evalText message.frees_true).keepsPlace_sensing.of_ok h₁
    obtain ⟨hmachine, hrest⟩ := hsent h hplace.1 rfl
    exact ⟨t₁.machine, _, .message h₁ wait t', haside.poised, hmachine, hrest⟩
  | switchBackdrop backdrop wait =>
    obtain ⟨v, t₁, h₁, h⟩ := bind_eq_ok.mp h
    have haside := (made_eval backdrop.frees_true).aside.of_ok h₁
    have hplace := (made_eval backdrop.frees_true).keepsPlace_sensing.of_ok h₁
    obtain ⟨_, t₂, h₂, h⟩ := bind_eq_ok.mp h
    cases h₂
    obtain ⟨m₀, heq, ⟨hqueue, hrunning, hgroup⟩, hcontinues, halters⟩ :=
      ({ t₁.machine with visual := true } : Machine H).switchBackdrop_eq_trigger v
    obtain ⟨hmachine, hrest⟩ := hsent h hplace.1 heq
    have hready : t.machine.Aside { t₁.machine with visual := true } :=
      haside.trans ⟨rfl, rfl, rfl, rfl, rfl, rfl, rfl, rfl, rfl⟩
    have hpoised : t.machine.Poised m₀ :=
      ⟨hqueue.trans haside.queue, hrunning.trans haside.running, hgroup.trans haside.lastGroup,
        fun I => (hready.poised.continues I).trans (hcontinues I),
        fun own seat s => (hready.poised.alters own seat s).trans (halters own seat s)⟩
    have hstage : t'.machine.stage? = m₀.stage? := by
      rw [hmachine, Machine.trigger_eq]
      rfl
    refine ⟨m₀, _, ?_, hpoised, hmachine, hrest⟩
    rw [← hstage]
    exact .backdrop backdrop wait t t'
  | _ => cases hs

/-! ## 3. What a statement leaves in the seat -/

/-- What a statement leaves in the seat of the thread that executes it. Where an event starts its
    script over, the new thread waits for the next pass, unless the script is listed twice. -/
inductive Leaves (s : Stmt) (t t' : Turn H) : Seat → Prop
  | restarted {e : Event} (he : Sends s t t' e)
      (hstarts : t.thread.script ∈ t'.machine.scriptsFor e) :
      Leaves s t t' (.waiting
        { Thread.start t.thread.target t.thread.base t'.machine.lastGroup with
          ready := decide (1 < (t.program.startedBy e).count t.thread.base) })
  | missed {e : Event} (he : Sends s t t' e)
      (hno : t.thread.script ∉ t'.machine.scriptsFor e) : Leaves s t t' .running
  | stopped (hs : s = .stopAll) : Leaves s t t' .empty
  | deleted (hs : s = .deleteClone) {target : Target}
      (htarget : t.machine.target? t.thread.target = some target)
      (hclone : target.isClone = true) : Leaves s t t' .empty
  | spared (hs : s = .deleteClone) {target : Target}
      (htarget : t.machine.target? t.thread.target = some target)
      (hclone : target.isClone = false) : Leaves s t t' .running
  | quiet (hs : s.mayUnseat = false) : Leaves s t t' .running

section Leaves

variable {I : Invariant} {originals : List Target} {s : Stmt} {t t' : Turn H} {c : Control}

omit [Host H] in
/-- A clone that is deleted loses the seat of its thread at work. -/
theorem seat_deleteClone (hseated : Seated t)
    (h : (t.machine.deleteClone t.thread.target).1 = true) :
    (t.machine.deleteClone t.thread.target).2.queue[t.seat]? = some .empty := by
  have hscript := Machine.occupant?_running hseated.running hseated.seat
  rcases t.machine.deleteClone_cases t.thread.target with heq | ⟨-, -, -, heq⟩
  · rw [heq] at h
    cases h
  · rw [heq]
    show (t.machine.stopTarget t.thread.target none).queue[t.seat]? = some .empty
    unfold Machine.stopTarget
    rw [List.getElem?_mapIdx, hseated.seat, Option.map_some, if_neg nofun, hscript,
      Option.map_some, if_pos rfl]

theorem exec_deleteClone_apply (t : Turn H) :
    exec .deleteClone t =
      .ok (if (t.machine.deleteClone t.thread.target).1 then .leave .detached else .onward [])
        { t with machine := (t.machine.deleteClone t.thread.target).2 } := by
  simp only [exec, bind_apply, thread_apply, ask_apply]
  split <;> rfl

/-- An event may start the script of its sender over. -/
theorem leaves_of_sends (hm : t.machine.Sound I) (hd : t.machine.Distinct)
    (hr : t.machine.Rostered originals) (hseated : Seated t) (hs : s.sends = true)
    (h : exec s t = .ok c t') :
    ∃ seat, t'.machine.queue[t.seat]? = some seat ∧ Leaves s t t' seat := by
  obtain ⟨m₀, e, hsends, hpoised, hmachine, -⟩ := exec_sends hs h
  have hrunning : m₀.newGroup.2.running =
      some ⟨t.seat, t.thread.target, t.thread.base, t.thread.group⟩ :=
    hpoised.running.trans hseated.running
  have hlent : m₀.newGroup.2.queue[t.seat]? = some .running := by
    show m₀.queue[t.seat]? = some .running
    rw [hpoised.queue]
    exact hseated.seat
  have hdistinct : m₀.newGroup.2.Distinct := by
    refine hd.of_occupants fun i script hi => ?_
    rw [← hi]
    refine (Machine.occupant?_congr hpoised.running ?_).symm
    rw [hpoised.queue]
  have hscripts : t'.machine.scriptsFor e = m₀.scriptsFor e := by
    rw [hmachine, Machine.scriptsFor_trigger]
  have hgroup : t'.machine.lastGroup = m₀.lastGroup + 1 := by
    rw [hmachine, Machine.trigger_eq]
  have hseat := Machine.seat_startAll hdistinct hrunning hlent (m₀.lastGroup + 1) (m₀.scriptsFor e)
  rw [← Machine.trigger_eq_startAll, ← hmachine] at hseat
  by_cases hmem : t.thread.script ∈ m₀.scriptsFor e
  · obtain ⟨hsound, hretains⟩ := hpoised.continues I hm
    obtain ⟨clones, hroster⟩ := hr.recasts (hr.alters (hpoised.alters 0 0 s))
    obtain ⟨target, htarget, hprogram⟩ := hseated.target
    obtain ⟨target', htarget', hsame⟩ := hretains.target _ _ htarget
    have hcount := Machine.count_scriptsFor (Machine.nodup_audience hroster hsound) htarget' hmem
    rw [hsame.program, hprogram] at hcount
    refine ⟨_, hseat.trans (if_pos hmem), ?_⟩
    rw [← hgroup]
    dsimp only
    rw [hcount]
    exact .restarted hsends (hscripts ▸ hmem)
  · exact ⟨_, hseat.trans (if_neg hmem), .missed hsends (hscripts ▸ hmem)⟩

/-- **What a statement leaves in the seat of its thread.** -/
theorem exec_leaves (hm : t.machine.Sound I) (hd : t.machine.Distinct)
    (hr : t.machine.Rostered originals) (hseated : Seated t) (h : exec s t = .ok c t') :
    ∃ seat, t'.machine.queue[t.seat]? = some seat ∧ Leaves s t t' seat := by
  by_cases hunseat : s.mayUnseat = true
  case neg =>
    have hquiet := Bool.eq_false_iff.mpr hunseat
    obtain ⟨hpasses, -, hseated'⟩ := (exec_advances hquiet).of_ok h hm hseated
    have hlent := hseated'.seat
    rw [hpasses.seat] at hlent
    exact ⟨.running, hlent, .quiet hquiet⟩
  cases s with
  | broadcast | switchBackdrop => exact leaves_of_sends hm hd hr hseated rfl h
  | stopAll =>
    simp only [exec, bind_apply, modifyMachine_apply, ifSeated_apply] at h
    cases h
    refine ⟨.empty, ?_, .stopped rfl⟩
    have hworking : t.machine.running.isSome = true := by rw [hseated.running]; rfl
    show t.machine.stopAll.queue[t.seat]? = some .empty
    rw [Machine.queue_stopAll hworking, List.getElem?_map, hseated.seat]
    rfl
  | deleteClone =>
    obtain ⟨target, htarget, -⟩ := hseated.target
    rw [exec_deleteClone_apply] at h
    cases h
    cases hdeleted : (t.machine.deleteClone t.thread.target).1 with
    | true =>
      refine ⟨.empty, seat_deleteClone hseated hdeleted, .deleted rfl htarget ?_⟩
      unfold Machine.deleteClone at hdeleted
      rw [htarget] at hdeleted
      dsimp only at hdeleted
      split at hdeleted
      · cases hdeleted
      · rename_i hclone
        simpa using hclone
    | false =>
      refine ⟨.running, ?_, .spared rfl htarget ?_⟩
      · dsimp only
        rw [Machine.deleteClone_false hdeleted]
        exact hseated.seat
      · unfold Machine.deleteClone at hdeleted
        rw [htarget] at hdeleted
        dsimp only at hdeleted
        split at hdeleted
        · rename_i hclone
          simpa using hclone
        · cases hdeleted
  | _ => cases hunseat

/-- Of the statements that leave a thread its seat, one ends it. -/
theorem return_of_exec {e : Exit} (hs : s.mayUnseat = false) (h : exec s t = .ok (.leave e) t')
    (he : e.label? = none) : s = .return ∧ e = .stop := by
  have hplain (hp : s.isPlain = true) : s = .return ∧ e = .stop := by
    obtain ⟨x, -, heq⟩ := made_exec_plain (H := H) hp
    rw [heq] at h
    obtain ⟨_, _, -, h⟩ := bind_eq_ok.mp h
    cases h
  have hlabel {l : Label} (hl : e.label? = some l) : s = .return ∧ e = .stop := by
    cases he.symm.trans hl
  cases s with
  | broadcast | switchBackdrop | deleteClone | stopAll => cases hs
  | label | forever => cases h
  | forceQueue =>
    cases h
    exact hlabel rfl
  | «return» =>
    cases h
    exact ⟨rfl, rfl⟩
  | save | branch | motion =>
    obtain ⟨_, _, -, h⟩ := bind_eq_ok.mp h
    cases h
  | queue l =>
    obtain ⟨_, _, -, h⟩ := bind_eq_ok.mp h
    cases h
    split at he <;> cases he
  | restore =>
    rw [exec_restore] at h
    split at h <;> cases h
  | endCall =>
    rw [exec_endCall] at h
    split at h
    · cases h
      exact hlabel rfl
    · cases h
  | call p args resume =>
    rw [exec_call] at h
    split at h
    · cases h
    · split at h
      · cases h
      · cases h
        split at he <;> cases he
  | «repeat» times body =>
    obtain ⟨_, _, -, h⟩ := bind_eq_ok.mp h
    split at h <;> cases h
  | «while» cond body =>
    obtain ⟨_, _, -, h⟩ := bind_eq_ok.mp h
    split at h <;> cases h
  | setRegister | setVariable | changeVariable | list | looks | sound | pen | ask
  | collectAnswer | resetTimer | createClone | stopOthers => exact hplain rfl

/-- **A thread is told that it has lost its seat just when it has.** -/
theorem exec_detached_iff (hm : t.machine.Sound I) (hseated : Seated t)
    (h : exec s t = .ok c t') :
    c = .leave .detached ↔ t'.machine.isRunning t.seat = false := by
  have horderly := exec_orderly s hm hseated
  rw [h] at horderly
  constructor
  · rintro rfl
    by_cases hunseat : s.mayUnseat = true
    case neg => cases (return_of_exec (Bool.eq_false_iff.mpr hunseat) h rfl).2
    have hsent (hs : s.sends = true) : t'.machine.isRunning t.seat = false := by
      obtain ⟨-, -, -, -, -, -, hc, -⟩ := exec_sends hs h
      split at hc
      · cases hc
      · rename_i hlost
        exact Bool.eq_false_iff.mpr hlost
    cases s with
    | broadcast | switchBackdrop => exact hsent rfl
    | stopAll =>
      simp only [exec, bind_apply, modifyMachine_apply, ifSeated_apply] at h
      injection h with _ h
      rw [← h]
      exact Machine.isRunning_stopAll _ _
    | deleteClone =>
      rw [exec_deleteClone_apply] at h
      cases hdeleted : (t.machine.deleteClone t.thread.target).1 with
      | false =>
        rw [hdeleted] at h
        cases h
      | true =>
        have hempty := seat_deleteClone hseated hdeleted
        injection h with _ h
        rw [← h, Bool.eq_false_iff, ne_eq, Machine.isRunning_iff]
        dsimp only
        rw [hempty]
        intro heq
        cases heq
    | _ => cases hunseat
  · intro hlost
    by_contra hne
    have hlent := (horderly.2 hne).seat
    rw [horderly.1.seat] at hlent
    rw [Machine.isRunning_iff.mpr hlent] at hlost
    cases hlost

end Leaves

end Act

/-! ## 4. A thread that is gone -/

/-- The end of a turn leaves a seat alone that the thread has lost. -/
theorem Machine.settle_of_lost {H : Type} {m : Machine H} {i : Nat} (h : m.isRunning i = false)
    (s : Seat) :
    m.settle i s = { m with running := none } := by
  unfold settle
  rw [h, if_neg Bool.false_ne_true]

namespace World

variable {H : Type} {R : Rules} {D : Discipline R}

/-- The state has no thread that is the same as this one. -/
def Lacks (w : World H) (t : Thread) : Prop :=
  ∀ p x, w.Sees p x → ¬ Thread.Same t x.thread

/-- A thread that has lost its seat is gone. -/
theorem lacks_of_lost {t t' : Turn H} {m : Machine H} {length : Nat} {seats : List Nat}
    (hpasses : Act.Passes D.toInvariant t t') (hm : t.machine.Sound D.toInvariant)
    (htidy : t.machine.Tidy) (hseated : Act.Seated t)
    (hgroup : t.thread.group ≤ t.machine.lastGroup) (hqueue : m.queue = t'.machine.queue)
    (htargets : m.targets = t'.machine.targets) : (World.pass m length seats).Lacks t.thread := by
  intro p x hx hsame
  cases hx with
  | @seat _ _ u hu =>
    have hwaits : t'.machine.Waits p u := by
      obtain ⟨hmem, target, htarget, hprogram⟩ := hu
      refine ⟨hqueue ▸ hmem, target, ?_, hprogram⟩
      unfold Machine.target? at htarget ⊢
      rw [← htargets]
      exact htarget
    -- it is of no event since, so it has waited before: but it was at work
    have hold : u.group ≤ t.machine.lastGroup := hsame.group ▸ hgroup
    have hback := hwaits.back hm hpasses.evolves hpasses.lasts hold
    exact script_ne_of_waits htidy hseated hback hsame.script

variable [Host H]

/-- Groups are never given back. -/
theorem Step.lastGroup_le {w w' : World H} (h : Step R w w') (hw : w.Sound D) :
    w.machine.lastGroup ≤ w'.machine.lastGroup := by
  have hexec {s : Stmt} {t t' : Turn H} {c : Control} (h : Act.exec s t = .ok c t')
      (hm : t.machine.Sound D.toInvariant) (hs : Act.Seated t) :
      t.machine.lastGroup ≤ t'.machine.lastGroup :=
    (passes_of_exec h hm hs).1.evolves.lastGroup
  cases h with
  | request hr => exact (Machine.Settled.evolves hr hw).lastGroup
  | setClock | start | lapse | skip | enter | refuse | finish | again | close =>
    exact Nat.le_refl _
  | onward h => exact hexec h hw.1.1 hw.2.1.1
  | jump h => exact hexec h hw.1.1 hw.2.1.1
  | leave h => exact hexec h hw.1.1 hw.2.1.1
  | fail hfails => exact (hfails.passes hw.1.1 hw.2.1.1).evolves.lastGroup

/-- **A thread that is gone does not come back.** -/
theorem Reaches.gone {w w' : World H} (h : Reaches R w w') (hw : w.Sound D) {t : Thread}
    (hgroup : t.group ≤ w.machine.lastGroup) (hgone : w.Lacks t) : w'.Lacks t := by
  suffices hboth : t.group ≤ w'.machine.lastGroup ∧ w'.Lacks t from hboth.2
  induction h with
  | refl => exact ⟨hgroup, hgone⟩
  | tail hreaches hstep ih =>
    obtain ⟨hgroup, hgone⟩ := ih
    have hsound := Reaches.sound hreaches hw
    refine ⟨Nat.le_trans hgroup (hstep.lastGroup_le hsound), fun p y hy hsame => ?_⟩
    -- whoever is there now and is not of an event since was there one step before
    have hold : y.thread.group ≤ _ := hsame.group ▸ hgroup
    obtain ⟨x, hx, -, hback⟩ := hstep.sight hsound hy hold
    exact hgone p x hx (hsame.trans hback.symm)

end World

/-- **A thread that loses its seat is gone for good**, whatever the programs are. Each statement is
    executed by a thread whose seat is marked as its own and whose target lives. What it leaves in
    the seat is known, and the thread is told to leave just if the seat is not its own any more.
    Then the turn is over: what the statement put into the seat stays there, and the thread is not
    seen again, neither in a seat nor at work. -/
theorem World.unseated_for_good {H : Type} [Host H] {p : Project} {programs : List Program}
    {o : Options} {host : H} {s : Surroundings} {m : Machine H}
    (h : Machine.load p programs o host s = .ok m) {t : Turn H} {l : Label} {code : List Stmt}
    {length : Nat} {seats : List Nat}
    (hw : World.Arises m (.turn t l code length seats)) :
    (t.machine.queue[t.seat]? = some .running ∧
      t.machine.running = some ⟨t.seat, t.thread.target, t.thread.base, t.thread.group⟩ ∧
      ∃ target, t.machine.target? t.thread.target = some target ∧ target.program = t.program) ∧
    ∀ st rest c t', code = st :: rest → Act.exec st t = .ok c t' →
      ∃ seat, t'.machine.queue[t.seat]? = some seat ∧ Act.Leaves st t t' seat ∧
        (seat = .running ↔ c ≠ .leave .detached) ∧
        (seat ≠ .running →
          (∀ v, World.Step .cut (.turn t l code length seats) v →
            v = .pass { t'.machine with running := none } length seats ∨
              v = .rest (t.machine.settle t.seat .empty)) ∧
          ∀ v, World.Reaches .cut (.pass { t'.machine with running := none } length seats) v →
            v.Lacks t.thread) := by
  obtain ⟨originals, -, hstart, -⟩ := Machine.roster_load h
  have hsound : World.Sound (Discipline.none .cut) (.turn t l code length seats) :=
    hw.sound (Machine.settled_load (fun _ _ => trivial) h)
  have hroster := Machine.Rostered.recasts ⟨[], hstart⟩ (hw.recasts ⟨[], hstart⟩)
  obtain ⟨⟨hm, htidy⟩, ⟨hseated, hgroup⟩, -⟩ := id hsound
  refine ⟨⟨hseated.seat, hseated.running, hseated.target⟩, ?_⟩
  rintro st rest c t' rfl hexec
  obtain ⟨seat, hseat, hleaves⟩ :=
    Act.exec_leaves hm htidy.distinct hroster hseated hexec
  have hdetached := Act.exec_detached_iff hm hseated hexec
  have hpasses := (World.passes_of_exec hexec hm hseated).1
  have hrunning : seat = .running ↔ t'.machine.isRunning t.seat = true := by
    rw [Machine.isRunning_iff, hseat, Option.some.injEq]
  have hkept : seat = .running ↔ c ≠ .leave .detached := by
    rw [hrunning, ne_eq, hdetached, Bool.not_eq_false]
  refine ⟨seat, hseat, hleaves, hkept, fun hlost => ?_⟩
  have hleave : c = .leave .detached := by
    by_contra hne
    exact hlost (hkept.mpr hne)
  subst hleave
  have hsettle : t'.machine.settle t'.seat .empty = { t'.machine with running := none } := by
    rw [hpasses.seat]
    exact Machine.settle_of_lost (hdetached.mp rfl) .empty
  have hstep : World.Step .cut (.turn t l (st :: rest) length seats)
      (.pass { t'.machine with running := none } length seats) := by
    rw [← hsettle]
    exact .leave hexec rfl l rest length seats
  refine ⟨fun v hv => ?_, fun v hv => ?_⟩
  · cases hv with
    | onward h => cases hexec.symm.trans h
    | jump h => cases hexec.symm.trans h
    | leave h he =>
      cases hexec.symm.trans h
      cases he
      rw [hsettle]
      exact .inl rfl
    | fail hfails =>
      cases hfails with
      | fault h => cases hexec.symm.trans h
      | stray h => cases hexec.symm.trans h
      | exhausted => exact .inr rfl
  · have hgone : (World.pass { t'.machine with running := none } length seats).Lacks t.thread :=
      World.lacks_of_lost hpasses hm htidy hseated hgroup rfl rfl
    refine World.Reaches.gone hv (hstep.sound hsound) ?_ hgone
    exact Nat.le_trans hgroup hpasses.evolves.lastGroup

/-- Two targets without blocks; their programs are given apart. -/
def echoingProject : Project := ⟨[{ isStage := true, name := "Stage" }, { name := "Cat" }]⟩

/-- A script that sends a message from inside a loop and a branch, and the scripts that it starts. -/
def echoing (started : List Label) : Program where
  continuations := [⟨0, [.forever [.branch (.const (.boolean true))
    [.broadcast (.const (.text "go")) false] []]]⟩]
  listeners := [(.flag, [0]), (.message "go", started)]

/-- The machine of the two targets. -/
def loadEchoing (started : List Label) : Except Error (Machine Headless) :=
  Machine.load echoingProject [{}, echoing started] {} {} .still

namespace World

/-- Whether a thread is about to send an event. -/
def isSending {H : Type} : World H → Bool
  | .turn _ _ (s :: _) _ _ => s.sends
  | _ => false

variable {H : Type} [Host H]

/-- Whether the thread that the next statement puts into the seat of the one at work is ready. -/
def readyAfter? : World H → Option Bool
  | .turn t _ (s :: _) _ _ =>
    match Act.exec s t with
    | .ok _ t' =>
      match t'.machine.queue[t.seat]? with
      | some (.waiting u) => some u.ready
      | _ => none
    | .error _ _ => none
  | _ => none

theorem exists_of_readyAfter? {w : World H} {b : Bool} (h : w.readyAfter? = some b) :
    ∃ t l st rest length seats c t' u, w = .turn t l (st :: rest) length seats ∧
      Act.exec st t = .ok c t' ∧ t'.machine.queue[t.seat]? = some (.waiting u) ∧ u.ready = b := by
  unfold readyAfter? at h
  split at h
  · split at h
    · rename_i hexec
      split at h
      · rename_i hseat
        exact ⟨_, _, _, _, _, _, _, _, _, rfl, hexec, hseat, Option.some.inj h⟩
      · cases h
    · cases h
  · cases h

end World

/-- Whether the thread is ready that the first message after the green flag puts into the seat of
    its sender. -/
def echoed? (started : List Label) : Option Bool :=
  (loadEchoing started).toOption.bind fun m =>
    ((World.rest m.greenFlag.2).seek? .cut World.isSending 9).bind World.readyAfter?

theorem exists_of_echoed? {started : List Label} {b : Bool} (h : echoed? started = some b) :
    ∃ m t l st rest length seats c t' u, loadEchoing started = .ok m ∧
      World.Arises m (.turn t l (st :: rest) length seats) ∧
      Act.exec st t = .ok c t' ∧ t'.machine.queue[t.seat]? = some (.waiting u) ∧ u.ready = b := by
  obtain ⟨m, hm, h⟩ := Option.bind_eq_some_iff.mp h
  obtain ⟨w, hw, h⟩ := Option.bind_eq_some_iff.mp h
  obtain ⟨hreaches, -⟩ := World.reaches_seek? hw
  obtain ⟨t, l, st, rest, length, seats, c, t', u, rfl, hexec, hseat, hready⟩ :=
    World.exists_of_readyAfter? h
  have hload := eq_ok_of_toOption hm
  exact ⟨m, t, l, st, rest, length, seats, c, t', u, hload, .head (.greenFlag m) hreaches, hexec,
    hseat, hready⟩

/-- A message that starts the script of its sender once. -/
theorem World.echoing_once_unseated :
    ∃ m t l st rest length seats c t' u, loadEchoing [0] = .ok m ∧
      World.Arises m (.turn t l (st :: rest) length seats) ∧
      Act.exec st t = .ok c t' ∧ c = .leave .detached ∧
      t'.machine.queue[t.seat]? = some (.waiting u) ∧ u.ready = false ∧
      ∀ v, World.Reaches .cut (.pass { t'.machine with running := none } length seats) v →
        v.Lacks t.thread := by
  have hrun : echoed? [0] = some false := by decide +kernel
  obtain ⟨m, t, l, st, rest, length, seats, c, t', u, hload, hreaches, hexec, hseat, hready⟩ :=
    exists_of_echoed? hrun
  obtain ⟨seat, hseat', -, hkept, hlost⟩ :=
    (World.unseated_for_good hload hreaches).2 st rest c t' rfl hexec
  cases hseat.symm.trans hseat'
  refine ⟨m, t, l, st, rest, length, seats, c, t', u, hload, hreaches, hexec, ?_, hseat, hready,
    (hlost nofun).2⟩
  by_contra hne
  cases hkept.mpr hne

/-- A message that starts the script of its sender twice: the thread in the seat is ready. -/
theorem World.echoing_twice_ready :
    ∃ m t l st rest length seats c t' u, loadEchoing [0, 0] = .ok m ∧
      World.Arises m (.turn t l (st :: rest) length seats) ∧
      Act.exec st t = .ok c t' ∧ t'.machine.queue[t.seat]? = some (.waiting u) ∧
      u.ready = true := by
  have hrun : echoed? [0, 0] = some true := by decide +kernel
  exact exists_of_echoed? hrun

end BlockScript
