import BlockScript.Proofs.Layouts
import BlockScript.Proofs.Machines

/-!
# Turns that go well

A thread at work that keeps to a layout of its program asks for nothing that is not there: its turn
goes well, or does not come to its end.

* `Well`: a result that is no fault of a script;
* `Invariant.fitting`: each thread can go on where it resumes;
* `Act.Holds`: what holds of a turn while its thread is at work;
* `Act.exec_well`: each statement goes well;
* `Act.resume_well`: each turn goes well, and leaves a sound machine and a thread that can go on.
-/

namespace BlockScript

/-! ## 1. Results -/

/-- The result of something that went well, or did not come to its end. -/
inductive Well {σ α : Type} (Q : α → σ → Prop) : EStateM.Result Fault σ α → Prop
  | ok {a : α} {s : σ} (h : Q a s) : Well Q (.ok a s)
  | exhausted (s : σ) : Well Q (.error .exhausted s)

namespace Well

variable {σ α β : Type} {P Q : α → σ → Prop} {R : β → σ → Prop}

theorem mono (h : ∀ a s, P a s → Q a s) {r : EStateM.Result Fault σ α} (hr : Well P r) :
    Well Q r := by
  cases hr with
  | ok hp => exact .ok (h _ _ hp)
  | exhausted s => exact .exhausted s

theorem bind {x : EStateM Fault σ α} {f : α → EStateM Fault σ β} {s : σ} (hx : Well P (x s))
    (hf : ∀ a s', P a s' → Well R (f a s')) : Well R ((x >>= f) s) := by
  show Well R (EStateM.bind x f s)
  unfold EStateM.bind
  generalize x s = r at hx
  cases hx with
  | ok hp => exact hf _ _ hp
  | exhausted s' => exact .exhausted s'

end Well

/-- The thread can go on where it resumes, in a program. -/
def Thread.Fits (p : Program) (t : Thread) : Prop :=
  ∃ y : Layout, y.Describes p ∧ y.Resumes p t t.continuation

/-- Each program has a layout, and each thread can go on where it resumes. -/
def Invariant.fitting : Invariant where
  program := Program.Sound
  thread := Thread.Fits
  start := by
    rintro p e base ⟨y, hy⟩ hbase target group
    exact ⟨y, hy, Layout.resumes_start hy hbase target group⟩
  ready := by
    rintro p t ⟨y, hy, hresumes⟩ ready
    exact ⟨y, hy, hresumes.stands, hresumes.backed⟩

namespace Act

variable {H : Type} {p : Program} {stage : Bool}

/-! ## 2. Small acts -/

/-- What holds of a turn: the machine is sound, and the target of the thread lives. -/
structure Holds (p : Program) (stage : Bool) (t : Turn H) : Prop where
  machine : t.machine.Sound .fitting
  program : t.program = p
  target : ∃ target, t.machine.target? t.thread.target = some target ∧
    target.program = p ∧ target.isStage = stage

theorem Holds.withMachine {t : Turn H} (h : Holds p stage t) {m : Machine H}
    (hm : t.machine.Continues .fitting m) : Holds p stage { t with machine := m } := by
  obtain ⟨hsound, hretains⟩ := hm h.machine
  obtain ⟨target, htarget, hprogram, hstage⟩ := h.target
  obtain ⟨target', htarget', hs⟩ := hretains.target _ _ htarget
  exact ⟨hsound, h.program, target', htarget', hs.program.trans hprogram,
    hs.isStage.trans hstage⟩

theorem Holds.withThread {t : Turn H} (h : Holds p stage t) {thread : Thread}
    (heq : thread.target = t.thread.target) : Holds p stage { t with thread } := by
  refine ⟨h.machine, h.program, ?_⟩
  show ∃ target, t.machine.target? thread.target = some target ∧ _
  rw [heq]
  exact h.target

/-- The act goes well, and the thread is still at work then. -/
def Goes (p : Program) (stage : Bool) {α : Type} (x : Act H α) : Prop :=
  ∀ t, Holds p stage t → Well (fun _ => Holds p stage) (x t)

section Goes

variable {α β : Type}

theorem goes_pure (a : α) : Goes p stage (pure a : Act H α) := fun _ h => .ok h

theorem Goes.bind {x : Act H α} {f : α → Act H β} (hx : Goes p stage x)
    (hf : ∀ a, Goes p stage (f a)) : Goes p stage (x >>= f) :=
  fun t h => Well.bind (hx t h) fun a t' h' => hf a t' h'

/-- **If the small acts go well, so does every act made of them.** -/
theorem Made.goes {S : (α : Type) → Act H α → Prop} (hS : ∀ α x, S α x → Goes p stage x)
    {x : Act H α} (h : Made S α x) : Goes p stage x := by
  induction h with
  | pure a => exact goes_pure a
  | prim h => exact hS _ _ h
  | bind _ _ hx hf => exact .bind hx hf

theorem goes_modifyMachine {f : Machine H → Machine H}
    (hf : ∀ m : Machine H, m.Continues .fitting (f m)) :
    Goes p stage (modifyMachine f) := by
  intro t h
  rw [modifyMachine_apply]
  exact .ok (h.withMachine (hf _))

theorem goes_ask {f : Machine H → α × Machine H}
    (hf : ∀ m : Machine H, m.Continues .fitting (f m).2) :
    Goes p stage (ask f) := by
  intro t h
  rw [ask_apply]
  exact .ok (h.withMachine (hf _))

theorem goes_modifyThread {f : Thread → Thread} (hf : ∀ t, (f t).target = t.target) :
    Goes p stage (modifyThread (H := H) f) := by
  intro t h
  rw [modifyThread_apply]
  exact .ok (h.withThread (hf _))

theorem goes_current : Goes p stage (current (H := H)) := by
  intro t h
  obtain ⟨target, htarget, -⟩ := h.target
  rw [current_apply, htarget]
  exact .ok h

theorem goes_owner (s : Storage) : Goes p stage (owner (H := H) s) := by
  intro t h
  rw [owner_apply]
  cases s.owner with
  | target => exact goes_current t h
  | stage =>
    obtain ⟨target, hstage, -⟩ := h.machine.stage
    dsimp only
    rw [hstage]
    exact .ok h

theorem goes_knownCast (slot : Slot) (e : Expr) : Goes p stage (knownCast (H := H) slot e) := by
  intro t h
  rw [knownCast_apply]
  cases knownIn? slot e t.thread.calls with
  | none => exact .ok h
  | some known => exact .ok (h.withThread rfl)

theorem goes_sensing {r : Prop} {x : Act H α} (h : Sensing r α x) : Goes p stage x := by
  cases h with
  | current => exact goes_current
  | owner s => exact goes_owner s
  | knownCast slot e => exact goes_knownCast slot e
  | machine | thread => exact fun _ h => .ok h
  | look f _ hx =>
    intro t h
    rw [hx t]
    exact .ok h
  | roll f => exact goes_ask fun m => m.continues_roll f
  | now | timer | moment | askHost => exact goes_ask fun _ => Machine.continues_of_eq rfl rfl rfl rfl

theorem goes_wearCostume [Host H] (v : Value) : Goes p stage (wearCostume (H := H) v) := by
  intro t h
  obtain ⟨target, htarget, -⟩ := h.target
  have hid : t.machine.target? target.id = some target := by
    rw [h.machine.id _ _ htarget]
    exact htarget
  have hask : Goes p stage
      (if (t.machine.changeCostume target v).1 = true then
        modifyMachine (H := H) fun m => m.announceCostume target.id else pure ()) := by
    split
    · exact goes_modifyMachine fun m => m.continues_announceCostume _
    · exact goes_pure ()
  have hworn := h.withMachine (Machine.continues_changeCostume hid v)
  simp only [wearCostume, bind_apply, current_apply, htarget, ask_apply]
  exact hask _ hworn

theorem goes_working [Host H] {r w d : Prop} {x : Act H α} (h : Working r w d α x) :
    Goes p stage x := by
  cases h with
  | sensing h => exact goes_sensing h
  | modifyCurrent f hf =>
    exact .bind goes_current fun _ => goes_modifyMachine fun m =>
      Machine.continues_mapTarget fun t _ => (hf t).same
  | modifyOwner s f hf =>
    exact .bind (goes_owner s) fun _ => goes_modifyMachine fun m =>
      Machine.continues_mapTarget fun t _ => (hf t).same
  | wearCostume v => exact goes_wearCostume v
  | announce id => exact goes_modifyMachine fun m => m.continues_announceCostume id
  | registers f => exact goes_modifyThread fun _ => rfl
  | createClone id => exact goes_ask fun m => m.continues_createClone id
  | stopOthers =>
    exact .bind (fun _ h => .ok h) fun t => goes_modifyMachine fun m => m.continues_stopTarget _ _
  | tellHost | touchScreen | answer | resetTimer =>
    exact goes_modifyMachine fun _ => Machine.continues_of_eq rfl rfl rfl rfl

/-- What only sprites can do goes well with them. -/
theorem goes_moving [Host H] {r w d : Prop} {x : Act H α} (h : Moving r w d α x) :
    Goes p false x := by
  cases h with
  | working h => exact goes_working h
  | modifySprite f hf =>
    refine .bind (fun t h => ?_) fun _ =>
      goes_working (r := r) (w := w) (d := d) (.modifyCurrent _ fun t => .mapSprite t hf)
    obtain ⟨target, htarget, -, hsprite⟩ := h.target
    rw [sprite_apply, htarget]
    dsimp only
    cases hs : target.sprite? with
    | some s => exact .ok h
    | none =>
      rw [Target.isStage, hs] at hsprite
      cases hsprite

end Goes

/-! ## 3. Statements -/

/-- What holds after a statement. Only a thread that has lost its seat may have lost its target. -/
def Settles (p : Program) (stage : Bool) (c : Control) (t : Turn H) : Prop :=
  t.machine.Sound .fitting ∧ (c ≠ .leave .detached → Holds p stage t)

theorem Holds.settles {t : Turn H} (h : Holds p stage t) (c : Control) : Settles p stage c t :=
  ⟨h.machine, fun _ => h⟩

theorem Goes.settles {x : Act H Control} (hx : Goes p stage x) {t : Turn H}
    (h : Holds p stage t) : Well (Settles p stage) (x t) :=
  Well.mono (fun c _ h' => h'.settles c) (hx t h)

theorem goes_ifSeated : Goes p stage (ifSeated (H := H)) := by
  intro t h
  rw [ifSeated_apply]
  exact .ok h

theorem goes_execEvent (wait : Bool) {send : Machine H → GroupId × Machine H}
    (hsend : ∀ m : Machine H, m.Continues .fitting (send m).2) :
    Goes p stage (execEvent wait send) := by
  refine .bind (goes_ask hsend) fun group => ?_
  dsimp only
  split
  · exact .bind (goes_modifyThread fun _ => rfl) fun _ => goes_ifSeated
  · exact goes_ifSeated

theorem codeAt_apply {t : Turn H} {l : Label} {c : Script.Continuation}
    (h : t.program.continuation? l = some c) : codeAt l t = .ok c.body t := by
  simp only [codeAt, bind_apply, get_apply, h]
  rfl

theorem target_withSaveStack (t : Thread) (saved : List Registers) :
    (t.withSaveStack saved).target = t.target := by
  unfold Thread.withSaveStack
  cases t.calls <;> rfl

variable [Host H]

/-- Motion leaves the stage alone. -/
theorem goes_execMotion (op : MotionOp) : Goes p stage (execMotion (H := H) op) := by
  cases stage with
  | false => exact (made_motion op).goes fun _ _ => goes_moving
  | true =>
    intro t h
    obtain ⟨target, htarget, -, hstage⟩ := h.target
    have hnone : target.sprite? = none := Option.isNone_iff_eq_none.mp hstage
    simp only [execMotion, bind_apply, current_apply, htarget, hnone]
    exact .ok h

/-- A thread that deletes its own target has nothing left to do. -/
theorem exec_deleteClone {t : Turn H} (h : Holds p stage t) :
    Well (Settles p stage) (exec .deleteClone t) := by
  simp only [exec, bind_apply, thread_apply, ask_apply]
  cases hdelete : (t.machine.deleteClone t.thread.target).1 with
  | true =>
    rw [if_pos rfl]
    exact .ok ⟨Machine.sound_deleteClone h.machine _, fun hne => absurd rfl hne⟩
  | false =>
    rw [if_neg Bool.false_ne_true, Machine.deleteClone_false hdelete]
    exact .ok (h.settles _)

/-- Where everything stops, the thread loses its seat. -/
theorem exec_stopAll {t : Turn H} (h : Holds p stage t) :
    Well (Settles p stage) (exec .stopAll t) := by
  simp only [exec, bind_apply, modifyMachine_apply, ifSeated_apply, Machine.isRunning_stopAll]
  rw [if_neg Bool.false_ne_true]
  exact .ok ⟨Machine.sound_stopAll h.machine, fun hne => absurd rfl hne⟩

/-- A thread that keeps to a layout takes back only what it saved. -/
theorem exec_restore_well {y : Layout} {t : Turn H} {rest : List Stmt} (h : Holds p stage t)
    (hruns : y.Runs p t.thread (.restore :: rest)) :
    Well (Settles p stage) (exec .restore t) := by
  obtain ⟨e, hlevel⟩ := hruns.leveled
  rw [exec_restore]
  unfold Thread.restore?
  cases hstack : t.thread.saveStack with
  | nil =>
    rw [hstack] at hlevel
    cases hlevel with
    | steady hs => cases hs
  | cons rs copies =>
    refine .ok (Holds.settles (h.withThread ?_) _)
    exact target_withSaveStack t.thread copies

/-- A thread that keeps to a layout calls only procedures that are there. -/
theorem exec_call_well {y : Layout} {t : Turn H} {id : ProcId} {args : List Expr} {resume : Label}
    {rest : List Stmt} (h : Holds p stage t)
    (hruns : y.Runs p t.thread (.call id args resume :: rest)) :
    Well (Settles p stage) (exec (.call id args resume) t) := by
  obtain ⟨hnodes, -⟩ := Script.forall_nodes_cons.mp hruns.named
  obtain ⟨own, -, hfits⟩ := hnodes _ (Script.mem_nodesOf_self _)
  obtain ⟨-, q, hq, -⟩ := hfits.2
  have hprocedure : t.program.procedure? id = some q := by
    rw [h.program]
    exact hq
  rw [exec_call, hprocedure]
  dsimp only
  have hmade : Made (Sensing True) _ (args.mapM (eval (H := H))) :=
    made_evalAll fun e _ => e.frees_true
  have hargs := hmade.goes (fun _ _ => goes_sensing) t h
  generalize args.mapM eval t = result at hargs
  cases hargs with
  | ok h' =>
    refine .ok (Holds.settles (h'.withThread ?_) _)
    rfl
  | exhausted t' => exact .exhausted t'

/-- **Each statement goes well** that a thread comes to which keeps to a layout. -/
theorem exec_well {y : Layout} {t : Turn H} {s : Stmt} {rest : List Stmt} (h : Holds p stage t)
    (hruns : y.Runs p t.thread (s :: rest)) : Well (Settles p stage) (exec s t) := by
  have hsensing {α : Type} {x : Act H α} (hx : Made (Sensing True) α x) : Goes p stage x :=
    hx.goes fun _ _ => goes_sensing
  have hplain {s : Stmt} (hs : s.isPlain = true) : Well (Settles p stage) (exec s t) := by
    obtain ⟨x, hx, he⟩ := made_exec_plain (H := H) hs
    rw [he]
    exact (Goes.bind (hx.goes fun _ _ => goes_working) fun _ => goes_pure _).settles h
  cases s with
  | label | forever | forceQueue | «return» => exact .ok (h.settles _)
  | queue l => exact (Goes.bind (goes_sensing (.thread trivial)) fun _ => goes_pure _).settles h
  | save =>
    rw [exec_save]
    exact .ok ((h.withThread (target_withSaveStack _ _)).settles _)
  | restore => exact exec_restore_well h hruns
  | endCall =>
    rw [exec_endCall]
    unfold Thread.endCall?
    cases t.thread.calls with
    | nil => exact .ok (h.settles _)
    | cons c calls =>
      refine .ok (Holds.settles (h.withThread ?_) _)
      rfl
  | call id args resume => exact exec_call_well h hruns
  | branch cond yes no =>
    exact (Goes.bind (hsensing (made_evalBool cond.frees_true)) fun _ => goes_pure _).settles h
  | «repeat» times body =>
    refine (Goes.bind (hsensing (made_evalNumber times.frees_true)) fun _ => ?_).settles h
    split <;> exact goes_pure _
  | «while» cond body =>
    refine (Goes.bind (hsensing (made_evalBool cond.frees_true)) fun _ => ?_).settles h
    split <;> exact goes_pure _
  | motion op => exact (Goes.bind (goes_execMotion op) fun _ => goes_pure _).settles h
  | broadcast message wait =>
    exact (Goes.bind (hsensing (made_evalText message.frees_true)) fun _ =>
      goes_execEvent wait fun m => m.continues_trigger _).settles h
  | switchBackdrop backdrop wait =>
    exact (Goes.bind (hsensing (made_eval backdrop.frees_true)) fun _ =>
      .bind (goes_working (r := True) (w := True) (d := False) .touchScreen) fun _ =>
        goes_execEvent wait fun m => m.continues_switchBackdrop _).settles h
  | deleteClone => exact exec_deleteClone h
  | stopAll => exact exec_stopAll h
  | setRegister | setVariable | changeVariable | list | looks | sound | pen | ask
  | collectAnswer | resetTimer | createClone | stopOthers => exact hplain rfl

/-! ## 4. Turns -/

/-- What holds when a thread leaves some statements: if it does so for a label, then it can go on
    there. -/
structure Left (y : Layout) (p : Program) (stage : Bool) (exit : Option Exit) (t : Turn H) :
    Prop where
  machine : t.machine.Sound .fitting
  holds : exit ≠ some .detached → Holds p stage t
  resumes : ∀ e l, exit = some e → e.label? = some l → y.Resumes p t.thread l

/-- **Statements go well one after the other.** -/
theorem block_well {y : Layout} (hy : y.Describes p) (steps : Nat) :
    ∀ (code : List Stmt) (t : Turn H), Holds p stage t → y.Runs p t.thread code →
      Well (Left y p stage) (block steps code t) := by
  induction steps with
  | zero => exact fun _ t _ _ => .exhausted t
  | succ steps ih =>
    intro code t h hruns
    cases code with
    | nil => exact .ok ⟨h.machine, fun _ => h, nofun⟩
    | cons s rest =>
      have hwell := exec_well h hruns
      unfold block
      rw [bind_apply]
      cases hexec : exec s t with
      | error e t' =>
        rw [hexec] at hwell
        cases hwell with
        | exhausted => exact .exhausted t'
      | ok c t' =>
        rw [hexec] at hwell
        cases hwell with
        | ok hsettles =>
          cases c with
          | onward code => exact ih _ _ (hsettles.2 nofun) (hruns.onward (exec_onward hexec))
          | leave e =>
            refine .ok ⟨hsettles.1, fun hne => hsettles.2 fun heq => hne ?_, ?_⟩
            · cases heq
              rfl
            · intro e' l heq hl
              cases heq
              have hdeparts := exec_departs hexec hl
              rw [h.program] at hdeparts
              exact hruns.departs hy hdeparts

/-- What holds after a turn. -/
structure Ended (outcome : Outcome) (t : Turn H) : Prop where
  machine : t.machine.Sound .fitting
  thread : outcome = .yielded →
    ∃ target, t.machine.target? t.thread.target = some target ∧ t.thread.Fits target.program

/-- **A turn goes well** from any statements on with which its thread can go on. -/
theorem follow_well {y : Layout} (hy : y.Describes p) (steps : Nat) :
    ∀ (code : List Stmt) (t : Turn H), Holds p stage t → y.Runs p t.thread code →
      Well Ended (follow steps code t) := by
  induction steps with
  | zero => exact fun _ t _ _ => .exhausted t
  | succ steps ih =>
    intro code t h hruns
    unfold follow
    refine Well.bind (block_well hy (steps + 1) code t h hruns) fun exit t' hleft => ?_
    match exit with
    | none => exact .ok ⟨hleft.machine, nofun⟩
    | some .stop => exact .ok ⟨hleft.machine, nofun⟩
    | some .detached => exact .ok ⟨hleft.machine, nofun⟩
    | some (.yield l) =>
      have hholds := hleft.holds nofun
      have hresumes := hleft.resumes _ l rfl rfl
      obtain ⟨target, htarget, hprogram, -⟩ := hholds.target
      refine .ok ⟨hleft.machine, fun _ => ⟨target, htarget, y, ?_⟩⟩
      rw [hprogram]
      exact ⟨hy, hresumes.stands, hresumes.backed⟩
    | some (.jump l) =>
      have hholds := hleft.holds nofun
      have hresumes := hleft.resumes _ l rfl rfl
      obtain ⟨c, hc⟩ := hresumes.stands.continuation
      have hcode : codeAt l t' = .ok c.body t' := by
        refine codeAt_apply ?_
        rw [hholds.program]
        exact hc
      dsimp only
      rw [bind_apply, hcode]
      exact ih c.body t' hholds (hresumes.runs hy hc)

/-- **The turn of a thread that can go on goes well.** -/
theorem resume_well (steps : Nat) {t : Turn H} (h : Holds p stage t) (hfits : t.thread.Fits p) :
    Well Ended (resume steps t) := by
  obtain ⟨y, hy, hresumes⟩ := hfits
  obtain ⟨c, hc⟩ := hresumes.stands.continuation
  have hcode : codeAt t.thread.continuation t = .ok c.body t := by
    refine codeAt_apply ?_
    rw [h.program]
    exact hc
  unfold resume
  rw [bind_apply, thread_apply]
  dsimp only
  rw [bind_apply, hcode]
  exact follow_well hy steps c.body t h (hresumes.runs hy hc)

end Act

end BlockScript
