import BlockScript.Proofs.Groups
import BlockScript.Proofs.Passages
import BlockScript.Proofs.Successions

/-!
# Waiting for the threads of an event

A thread can send an event and wait until the threads that it starts have ended. It asks in each
pass whether their group is running still, and goes on only if not. Since a group only loses
threads, it then never runs again.

* `Script.Attended`: a statement that waits is followed by its wait, so in compiled scripts
  (`Script.convention_attended`);
* `Spot.Waiting`: a thread is in its wait for a group;
* `Sighting.waiting_run`: it leaves the wait only when the group is not running;
* `World.rendezvous_safe`: what holds of every group, and of every thread that waits for one.
-/

namespace BlockScript

open Compile (Labelled)

/-! ## 1. What follows a statement that waits -/

namespace Script

/-- The statement keeps a thread at a label as long as the group that it waits for is running. -/
inductive WaitsAt (k : Label) : Stmt → Prop
  | mk (behind : List Stmt) : WaitsAt k (.branch .groupRunning (.forceQueue k :: behind) [])

/-- A statement that waits for the threads it starts is followed by a label and the wait. -/
def Attended (s : Stmt) (rest : List Stmt) : Prop :=
  s.awaits = true → ∃ k wait after, WaitsAt k wait ∧ rest = .label k :: wait :: after

theorem attended_of_not_awaits {s : Stmt} (h : s.awaits = false) (rest : List Stmt) :
    Attended s rest := by
  intro hawaits
  rw [h] at hawaits
  cases hawaits

theorem attended_of_not_begins {s : Stmt} {rest : List Stmt} (h : s.begins = false) :
    Attended s rest := by
  refine attended_of_not_awaits ?_ rest
  cases s with
  | broadcast | switchBackdrop => exact h
  | _ => rfl

/-- **In compiled scripts each statement that waits is followed by its wait.** -/
theorem convention_attended : Convention Attended where
  grows := by
    intro s a b h hawaits
    obtain ⟨k, wait, after, hwaits, rfl⟩ := h hawaits
    exact ⟨k, wait, after ++ b, hwaits, rfl⟩
  free := attended_of_not_begins
  timedWait l duration := followed_timedWait attended_of_not_begins l duration
    (attended_of_not_awaits rfl _)
  glide l secs x y := followed_glide attended_of_not_begins l secs x y
    (attended_of_not_awaits rfl _)
  request l _ _ _ h := followed_request attended_of_not_begins l h <| by
    cases h with
    | broadcast | switchBackdrop => exact fun _ => ⟨l, _, [.restore], .mk [], rfl⟩
    | sound | question => exact attended_of_not_awaits rfl _

end Script

/-! ## 2. What a thread that waits finds -/

variable {source : Program → List Labelled} {q : Program} {l k : Label}

/-- The statements at hand hold no label. -/
def Discipline.bare : Discipline .cut where
  program q := ∀ l code, Rules.cut.finds q l code → ∀ k, .label k ∉ Script.nodes code
  thread _ _ := True
  start _ _ _ _ := trivial
  ready _ _ := trivial
  working _ _ _ code := ∀ k, .label k ∉ Script.nodes code
  enter hp _ hc := hp _ _ hc
  onward := by
    intro p s t t' l code rest _ h ho k hmem
    have hhead : ∀ n ∈ Script.nodesOf s, n ≠ .label k := by
      rintro n hn rfl
      exact h k (Script.mem_nodes_cons.mpr (.inl hn))
    rcases Script.mem_nodes_append.mp hmem with hmem | hmem
    · exact ho.forall_nodes (fun _ _ _ _ => nofun) hhead _ hmem rfl
    · exact h k (Script.mem_nodes_cons.mpr (.inr hmem))
  jump hp _ _ hc := hp _ _ hc
  yield _ _ _ := trivial

/-- Continuations hold no label. -/
theorem Program.Stems.bare (h : q.Stems source) : Discipline.bare.program q := by
  rintro l _ ⟨c, hc, rfl⟩ k
  obtain ⟨data, hassembled⟩ := h
  obtain ⟨-, s, hs, hl, hbody⟩ := hassembled.continuation l c hc
  rw [hbody]
  exact Script.label_not_mem_bodyAt hl (hassembled.scripts.whole s hs).clear

/-- In every state of a compiled project the statements at hand hold no label. -/
theorem World.Arises.bare {H : Type} [Host H] {p : Project} {o : Options} {host : H}
    {surroundings : Surroundings} {m : Machine H}
    (hload : Player.loadProject p o host surroundings = .ok m) {t : Turn H} {code : List Stmt}
    {length : Nat} {seats : List Nat} (h : World.Arises m (.turn t l code length seats))
    (k : Label) : .label k ∉ Script.nodes code := by
  obtain ⟨source, hsource⟩ := p.exists_sourced
  have hbare : World.Sound .bare (.rest m) :=
    World.sound_load hload fun q hq => (hsource.stems hq).bare
  exact (h.sound hbare).2.2 k

namespace Script

/-- A wait stays one. -/
theorem Pruned.waitsAt {s : Stmt} {a b : List Stmt} (h : Pruned (s :: a) b) (hs : WaitsAt k s) :
    ∃ wait rest, b = wait :: rest ∧ WaitsAt k wait ∧ Pruned a rest := by
  cases hs with
  | mk behind =>
    cases h with
    | same _ h => exact ⟨_, _, rfl, .mk behind, h⟩
    | branch _ hyes hno h =>
      cases hno
      cases hyes with
      | same => exact ⟨_, _, rfl, .mk _, h⟩
      | last => exact ⟨_, _, rfl, .mk _, h⟩
    | last hterm => cases hterm

/-- **A statement that waits is followed by its wait**, also when scripts are cut, and the wait is
    what a thread finds at its label. -/
theorem exists_wait {s : Stmt} {code rest : List Stmt} (hq : q.Stems source)
    (hplaced : Placed (.whole source) q code) (hattended : Followed Attended code)
    (hpruned : Pruned code (s :: rest)) (hbare : ∀ l, .label l ∉ nodes (s :: rest))
    (hs : s.awaits = true) :
    ∃ k wait after, rest = wait :: after ∧ WaitsAt k wait ∧
      ∀ code', Rules.cut.finds q k code' → ∃ wait' after', code' = wait' :: after' ∧
        WaitsAt k wait' := by
  induction code with
  | nil => cases hpruned
  | cons s₀ rest₀ ih =>
    obtain ⟨⟨-, hwait⟩, hrest⟩ := hattended
    have hright : Placed (.whole source) q rest₀ := Placed.right (a := [s₀]) hplaced
    cases hpruned with
    | label l h => exact ih hright hrest h
    | branch => cases hs
    | last hterm =>
      cases s with
      | broadcast | switchBackdrop => cases hterm
      | _ => cases hs
    | same _ h =>
      obtain ⟨k, wait, after, hwaits, rfl⟩ := hwait hs
      have hfound := hright.found k _ (.here (wait :: after))
      rw [List.flatten_singleton] at hfound
      have hpruned : Pruned (wait :: after) rest := by
        cases h with
        | label _ h => exact h
        | same => exact absurd (mem_nodes_cons.mpr (.inr List.mem_cons_self)) (hbare k)
        | last hterm => cases hterm
      obtain ⟨wait', after', rfl, hwaits', -⟩ := hpruned.waitsAt hwaits
      refine ⟨k, wait', after', rfl, hwaits', fun code' hcode' => ?_⟩
      obtain ⟨code₁, hwhole, hpruned₁⟩ := hq.whole hcode'
      rw [hq.unique hfound hwhole] at hpruned₁
      obtain ⟨wait₁, after₁, heq, hwaits₁, -⟩ := hpruned₁.waitsAt hwaits
      exact ⟨wait₁, after₁, heq, hwaits₁⟩

end Script

/-! ## 3. On the way through a wait -/

namespace Act

variable {H : Type} [Host H]

/-- To wait is to ask whether the group is running. -/
theorem exec_waitsAt {t : Turn H} {g : GroupId} (hg : t.thread.registers.group = some g)
    {wait : Stmt} (hwait : Script.WaitsAt k wait) :
    ∃ behind, exec wait t = .ok (.onward
      (if t.machine.isGroupRunning g then .forceQueue k :: behind else [])) t := by
  cases hwait with
  | mk behind =>
    refine ⟨behind, ?_⟩
    simp only [exec, evalBool, eval, bind_apply, thread_apply, hg, machine_apply]
    cases t.machine.isGroupRunning g <;> rfl

end Act

namespace Spot

/-- The thread is in the wait at the label, for the group: it is about to ask, about to leave its
    turn because the group is running, or waits for its next turn. -/
inductive Waiting (k : Label) (g : GroupId) : Spot → Prop
  | poll {t : Thread} (hg : t.registers.group = some g) (l : Label) {wait : Stmt}
      (hwait : Script.WaitsAt k wait) (after : List Stmt) :
      Waiting k g (.work t l (wait :: after))
  | again {t : Thread} (hg : t.registers.group = some g) (l : Label) (behind : List Stmt) :
      Waiting k g (.work t l (.forceQueue k :: behind))
  | seat {t : Thread} (hg : t.registers.group = some g) (hk : t.continuation = k) :
      Waiting k g (.seat t)

end Spot

namespace Sighting

variable {H : Type}

/-- From a state to the next the thread leaves its wait: it asks, and the group is not running. -/
inductive Passes (k : Label) (g : GroupId) (a b : Sighting H) : Prop
  | mk {t : Thread} {l : Label} {wait : Stmt} {after : List Stmt}
      (ha : a.spot = .work t l (wait :: after)) (hwait : Script.WaitsAt k wait)
      (hb : b.spot = .work t l after) (hover : a.world.machine.isGroupRunning g = false)

variable [Host H] {D : Discipline .cut} {a b : Sighting H} {g : GroupId}

/-- A thread that waits waits on, or leaves its wait. -/
theorem waiting_step (ha : a.world.Sound D) (hwaiting : a.spot.Waiting k g)
    (hfound : ∀ code, Rules.cut.finds a.program k code →
      ∃ wait after, code = wait :: after ∧ Script.WaitsAt k wait)
    (h : Step .cut a b) : b.spot.Waiting k g ∨ Passes k g a b := by
  obtain ⟨hsound, -, hspot⟩ := h.spot ha
  obtain ⟨w, p, x, hx⟩ := a
  obtain ⟨w', p', y, hy⟩ := b
  obtain ⟨hstep, hsame⟩ := h
  dsimp only at hwaiting hfound hsound hspot hstep hsame ha ⊢
  cases hwaiting with
  | @poll _ hg l wait hwait after =>
    cases hx with
    | work t _ _ length seats =>
      obtain ⟨behind, hexec⟩ := Act.exec_waitsAt hg hwait
      have hdeparts {k' : Label} {t' : Thread} (hd : Act.Departs t.program wait t.thread k' t') :
          False := by
        cases hwait
        cases hd
      cases hstep with
      | onward h =>
        cases hexec.symm.trans h
        cases hy with
        | seat hu =>
          cases hspot with
          | yield hd => exact (hdeparts hd).elim
        | work =>
          cases hrunning : t.machine.isGroupRunning g with
          | true => exact .inl (.again hg l _)
          | false => exact .inr (.mk rfl hwait rfl hrunning)
      | jump h => cases hexec.symm.trans h
      | leave h => cases hexec.symm.trans h
      | fail =>
        cases hy with
        | seat hu =>
          cases hspot with
          | yield hd => exact (hdeparts hd).elim
  | again hg l behind =>
    refine .inl ?_
    cases hspot with
    | onward ho =>
      cases ho with
      | done hterm => cases hterm
    | jump hd hc =>
      cases hd
      obtain ⟨wait, after, rfl, hwait⟩ := hfound _ hc
      exact .poll hg k hwait after
    | yield hd =>
      cases hd
      exact .seat hg rfl
  | seat hg hk =>
    refine .inl ?_
    cases hspot with
    | stay _ ready => exact .seat hg hk
    | enter hc =>
      rw [hk] at hc
      obtain ⟨wait, after, rfl, hwait⟩ := hfound _ hc
      exact .poll hg _ hwait after

/-- **A thread leaves its wait only when the group is not running**: as long as a run goes on, it
    waits, or there was a step in which it asked and the group was not running, and until then it
    did nothing else. -/
theorem waiting_run (ha : a.world.Sound D) (hwaiting : a.spot.Waiting k g)
    (hfound : ∀ code, Rules.cut.finds a.program k code →
      ∃ wait after, code = wait :: after ∧ Script.WaitsAt k wait)
    (h : Relation.ReflTransGen (Step .cut) a b) :
    b.spot.Waiting k g ∨ ∃ x y,
      Relation.ReflTransGen (fun x y => Step .cut x y ∧ y.spot.Waiting k g) a x ∧
      Step .cut x y ∧ Passes k g x y ∧ Relation.ReflTransGen (Step .cut) y b := by
  suffices hrun : (Relation.ReflTransGen (fun x y => Step .cut x y ∧ y.spot.Waiting k g) a b ∧
      b.world.Sound D ∧ b.program = a.program ∧ b.spot.Waiting k g) ∨ ∃ x y,
      Relation.ReflTransGen (fun x y => Step .cut x y ∧ y.spot.Waiting k g) a x ∧
      Step .cut x y ∧ Passes k g x y ∧ Relation.ReflTransGen (Step .cut) y b from
    hrun.imp_left fun h => h.2.2.2
  induction h with
  | refl => exact .inl ⟨.refl, ha, rfl, hwaiting⟩
  | @tail b c _ hstep ih =>
    rcases ih with ⟨hrun, hsound, hprogram, hstill⟩ | ⟨x, y, hrun, hxy, hpasses, hrest⟩
    · obtain ⟨hsound', hprogram', -⟩ := hstep.spot hsound
      rcases waiting_step hsound hstill (hprogram ▸ hfound) hstep with hnext | hpasses
      · exact .inl ⟨hrun.tail ⟨hstep, hnext⟩, hsound', hprogram'.trans hprogram, hnext⟩
      · exact .inr ⟨b, c, hrun, hstep, hpasses, .refl⟩
    · exact .inr ⟨x, y, hrun, hxy, hpasses, hrest.tail hstep⟩

end Sighting

/-! ## 4. Groups and waits in every run -/

namespace World

variable {H : Type} [Host H]

/-- What holds of a group in a run from a start, from the step on in which it is given out. -/
structure Gathers (R : Rules) (start w w' : World H) (g : GroupId) : Prop where
  /-- An event is sent, and the threads of the group are those of the scripts that wait for it. -/
  sent : ∃ σ m₀, w.machine.Calls σ m₀ w'.machine ∧ (σ.send m₀).1 = g ∧
    ∀ script, w'.machine.Under g script ↔ script ∈ σ.scripts (σ.send m₀).2
  /-- The group was not given out before. -/
  new : ∀ u u' g', Reaches R start u → Step R u u' → Reaches R u' w → u.Issues u' g' → g' ≠ g
  /-- Nobody was of the group before. -/
  nobody : ∀ u script, Reaches R start u → Reaches R u w → ¬ u.machine.Under g script
  /-- Whoever is of the group was started by the event, and has been there since. -/
  own : ∀ b : Sighting H, Reaches R w' b.world → b.spot.thread.group = g →
    ∃ a : Sighting H, a.world = w' ∧ a.spot.thread.Fresh ∧
      w'.machine.Under g a.spot.thread.script ∧ Relation.ReflTransGen (Sighting.Step R) a b
  shrinks : ∀ v v' script, Reaches R w' v → Reaches R v v' → v'.machine.Under g script →
    v.machine.Under g script
  stopped : ∀ v v', Reaches R w' v → Reaches R v v' → v.machine.isGroupRunning g = false →
    v'.machine.isGroupRunning g = false
  /-- The group stops running when each of its scripts has lost its thread. -/
  ends : ∀ v, Reaches R w' v → (v.machine.isGroupRunning g = false ↔
    ∀ script, w'.machine.Under g script → EndsIn R w' v g script)

variable {R : Rules} {D : Discipline R} {start w w' : World H} {g : GroupId}

theorem Step.gathers (h : Step R w w') (hstart : start.Sound D) (hrun : Reaches R start w)
    (hg : w.Issues w' g) : Gathers R start w w' g := by
  have hw := Reaches.sound hrun hstart
  have hw' := h.sound hw
  obtain ⟨hnew, hle⟩ := hg
  obtain ⟨σ, m₀, hcalls⟩ : ∃ σ m₀, w.machine.Calls σ m₀ w'.machine :=
    h.calls.resolve_left fun heq => absurd hle (Nat.not_le.mpr (heq ▸ hnew))
  have hsent : (σ.send m₀).1 = g := by
    have hlast : w'.machine.lastGroup = w.machine.lastGroup + 1 := by
      rw [hcalls.issued, σ.lastGroup_send, hcalls.lastGroup]
    rw [(σ.send_eq m₀).1, hcalls.lastGroup]
    exact Nat.le_antisymm hnew (hlast ▸ hle)
  have hunder {v v' : World H} {script : TargetId × Label} (hv : Reaches R w' v)
      (hvv : Reaches R v v') (h' : v'.machine.Under g script) : v.machine.Under g script :=
    Reaches.under_back hvv (Reaches.sound hv hw')
      (Nat.le_trans hle (Reaches.lastGroup_le hv hw')) h'
  refine ⟨⟨σ, m₀, hcalls, hsent, fun script => ?_⟩, ?_, ?_, ?_, fun v v' script => hunder, ?_, ?_⟩
  · rw [← hsent]
    exact under_of_calls hw hcalls h
  · intro u u' g' hu huu hu' hissues heq
    have hsound := huu.sound (Reaches.sound hu hstart)
    have hle' := Nat.le_trans hissues.2 (Reaches.lastGroup_le hu' hsound)
    exact absurd (heq ▸ hle') (Nat.not_le.mpr hnew)
  · intro u script hu huw
    have hsound := Reaches.sound hu hstart
    exact not_under hsound (Nat.lt_of_le_of_lt (Reaches.lastGroup_le huw hsound) hnew)
  · intro b hb hgroup
    obtain ⟨a, rfl, hsame, hfollowed⟩ := Reaches.followed hb hw' b rfl (hgroup ▸ hle)
    have hagroup : a.spot.thread.group = g := hsame.group.symm.trans hgroup
    have ha : a.world.machine.Under g a.spot.thread.script :=
      (under_iff hw').mpr ⟨_, _, a.sees, hagroup, rfl⟩
    refine ⟨a, rfl, ?_, ha, hfollowed⟩
    obtain ⟨w', p, x, hx⟩ := a
    cases hx with
    | seat ht => exact (fresh_of_calls hw hcalls ht.1 (hagroup ▸ hnew)).1
    | work => exact absurd (h.group_le hw (.work ..)) (Nat.not_le.mpr (hagroup ▸ hnew))
  · intro v v' hv hvv hover
    rw [Bool.eq_false_iff, ne_eq, Machine.isGroupRunning_iff] at hover ⊢
    rintro ⟨script, hstill⟩
    exact hover ⟨script, hunder hv hvv hstill⟩
  · intro v hv
    exact Reaches.isGroupRunning_eq_false_iff hv hw' hle

/-- In a compiled project a statement at hand that waits is followed by its wait. -/
theorem exists_wait {p : Project} {o : Options} {host : H} {s : Surroundings} {m : Machine H}
    (h : Player.loadProject p o host s = .ok m) {t : Turn H} {l : Label} {st : Stmt}
    {rest : List Stmt} {length : Nat} {seats : List Nat}
    (hw : Arises m (.turn t l (st :: rest) length seats)) (hst : st.awaits = true) :
    ∃ k wait after, rest = wait :: after ∧ Script.WaitsAt k wait ∧
      ∀ code, Rules.cut.finds t.program k code →
        ∃ wait' after', code = wait' :: after' ∧ Script.WaitsAt k wait' := by
  -- in the scripts, before they are cut, the wait can be told from all others
  obtain ⟨source, code, hstems, hplaced, hattended, hpruned⟩ :=
    hw.uncut Script.convention_attended h
  exact Script.exists_wait hstems hplaced hattended hpruned (hw.bare h) hst

end World

namespace Sighting

variable {H : Type} [Host H] {D : Discipline .cut} {a b : Sighting H}

/-- A thread that sends an event and waits remembers the group that the event gives out. -/
theorem waiting_of_awaits (ha : a.world.Sound D) (h : Step .cut a b) {t : Thread} {st wait : Stmt}
    {after : List Stmt} (hspot : a.spot = .work t l (st :: wait :: after)) (hst : st.awaits = true)
    (hwait : Script.WaitsAt k wait) :
    ∃ g, a.world.Issues b.world g ∧ b.spot.Waiting k g := by
  obtain ⟨-, -, hmoves⟩ := h.spot ha
  have hsends : st.sends = true := by
    cases st with
    | broadcast | switchBackdrop => rfl
    | _ => cases hst
  obtain ⟨w, p, x, hx⟩ := a
  obtain ⟨w', p', y, hy⟩ := b
  obtain ⟨hstep, -⟩ := h
  dsimp only at hspot hstep hmoves ha ⊢
  subst hspot
  -- it does not leave its turn
  have hseat {u : Thread} (hyu : y = .seat u) : False := by
    subst hyu
    cases hmoves with
    | yield hd => cases hd <;> cases hst
  cases hx with
  | work t _ _ length seats =>
    cases hstep with
    | @onward _ _ t' code hexec =>
      obtain ⟨m₀, e, -, hpoised, hmachine, -, hc, hgroup⟩ := Act.exec_sends hsends hexec
      have hcode : code = [] := by
        split at hc
        · exact Control.onward.inj hc
        · cases hc
      subst hcode
      cases hy with
      | seat => exact (hseat rfl).elim
      | work =>
        refine ⟨t'.machine.lastGroup, ⟨?_, Nat.le_refl _⟩, .poll (hgroup hst) l hwait after⟩
        show t.machine.lastGroup < t'.machine.lastGroup
        rw [hmachine, Machine.trigger_eq, ← hpoised.lastGroup]
        exact Nat.lt_succ_self _
    | jump hexec =>
      obtain ⟨-, -, -, -, -, -, hc, -⟩ := Act.exec_sends hsends hexec
      split at hc <;> cases hc
    | leave | fail =>
      cases hy with
      | seat => exact (hseat rfl).elim

end Sighting

/-- **Waiting for the threads of an event is safe**, whatever the programs are, in every run.

    Each way to send an event returns a group, and a step that gives out a group sends an event. The
    group was not given out before, and only threads that the event started are ever of it. The
    scripts that have a thread of the group only get fewer, so a group that is not running any more
    never runs again; and that is so just when each of the threads has finished, failed, been
    stopped or been replaced by one of another group.

    In a compiled project a thread that sends an event and waits remembers the group that its own
    event gave out, and does nothing but ask for it until, at a moment when it is not running, it
    goes on. -/
theorem World.rendezvous_safe {H : Type} [Host H] {p : Project} {programs : List Program}
    {o : Options} {host : H} {s : Surroundings} {m : Machine H}
    (h : Machine.load p programs o host s = .ok m) :
    (∀ (σ : Signal) (m' : Machine H), (σ.send m').1 = m'.lastGroup + 1 ∧
      (σ.send m').2.lastGroup = (σ.send m').1) ∧
    (∀ w w' g, World.Arises m w → World.Step .cut w w' → w.Issues w' g →
      World.Gathers .cut (.rest m) w w' g) ∧
    (p.compile = .ok programs → ∀ a b : Sighting H, World.Arises m a.world →
      Sighting.Step .cut a b → ∀ t l st rest, a.spot = .work t l (st :: rest) →
      st.awaits = true →
      ∃ k g, a.world.Issues b.world g ∧ b.spot.Waiting k g ∧
        ∀ c, Relation.ReflTransGen (Sighting.Step .cut) b c → c.spot.Waiting k g ∨ ∃ x y,
          Relation.ReflTransGen (fun x y => Sighting.Step .cut x y ∧ y.spot.Waiting k g) b x ∧
          Sighting.Step .cut x y ∧ Sighting.Passes k g x y ∧
          Relation.ReflTransGen (Sighting.Step .cut) y c) := by
  have hstart : World.Sound (Discipline.none .cut) (.rest m) :=
    Machine.settled_load (fun _ _ => trivial) h
  refine ⟨fun σ m' => ?_, fun w w' g hw hstep hg => hstep.gathers hstart hw hg, ?_⟩
  · have hgroup := (σ.send_eq m').1
    exact ⟨hgroup, (σ.lastGroup_send m').trans hgroup.symm⟩
  · intro hcompile a b ha hab t l st rest hspot hst
    have hload : Player.loadProject p o host s = .ok m :=
      except_bind_eq_ok.mpr ⟨programs, hcompile, h⟩
    have hsound := World.Reaches.sound ha hstart
    obtain ⟨hsound', hprogram, -⟩ := hab.spot hsound
    obtain ⟨k, wait, after, hrest, hwait, hfound⟩ : ∃ k wait after, rest = wait :: after ∧
        Script.WaitsAt k wait ∧ ∀ code, Rules.cut.finds a.program k code →
          ∃ wait' after', code = wait' :: after' ∧ Script.WaitsAt k wait' := by
      obtain ⟨w, q, x, hx⟩ := a
      cases hx with
      | seat => cases hspot
      | work =>
        cases hspot
        exact World.exists_wait hload ha hst
    subst hrest
    obtain ⟨g, hissues, hwaiting⟩ := Sighting.waiting_of_awaits hsound hab hspot hst hwait
    refine ⟨k, g, hissues, hwaiting, fun c hbc => ?_⟩
    exact Sighting.waiting_run hsound' hwaiting (hprogram ▸ hfound) hbc

/-- A sprite that calls and waits for an answer, which takes a while. -/
def calling : TargetData where
  name := "Calling"
  blocks := ⟨[
    ("k0", .block { opcode := "event_whenflagclicked", next := some "k1", topLevel := true }),
    ("k1", .block {
      opcode := "event_broadcastandwait"
      inputs := ⟨[("BROADCAST_INPUT", .broadcast "hello")], List.pairwise_singleton _ _⟩ }),
    ("r0", .block {
      opcode := "event_whenbroadcastreceived", next := some "r1", topLevel := true
      fields := ⟨[("BROADCAST_OPTION", ⟨"hello", none⟩)], List.pairwise_singleton _ _⟩ }),
    ("r1", .block {
      opcode := "control_repeat"
      inputs := ⟨[("TIMES", .block "r2")], List.pairwise_singleton _ _⟩ }),
    ("r2", .block {
      opcode := "operator_length"
      inputs := ⟨[("STRING", .literal (.text "s"))], List.pairwise_singleton _ _⟩ })],
    by decide⟩

/-- The sprite on a stage. -/
def callingProject : Project := ⟨[{ isStage := true, name := "Stage" }, calling]⟩

/-- Whether the thread at work is about to send an event and wait. -/
def World.isAwaiting {H : Type} : World H → Bool
  | .turn _ _ (s :: _) _ _ => s.awaits
  | _ => false

/-- Whether the thread is behind a wait, where it takes its registers back. -/
def Spot.isRestoring : Spot → Bool
  | .work _ _ (.restore :: _) => true
  | _ => false

/-- The first wait after the green flag: before the event is sent, right after it, and behind the
    wait. -/
def Machine.firstWait? {H : Type} [Host H] (m : Machine H) :
    Option (Sighting H × Sighting H × Sighting H) :=
  ((World.rest m.greenFlag.2).seek? .cut World.isAwaiting 9).bind fun w =>
    (Sighting.atWork? w).bind fun a =>
      (a.next? .cut).bind fun b =>
        (b.seek? .cut 0 (·.spot.isRestoring) 99).map fun c => (a, b, c)

theorem Machine.firstWait?_spec {H : Type} [Host H] {m : Machine H} {a b c : Sighting H}
    (h : m.firstWait? = some (a, b, c)) :
    World.Arises m a.world ∧
      (∃ t l st rest, a.spot = .work t l (st :: rest) ∧ st.awaits = true) ∧
      Sighting.Step .cut a b ∧ Relation.ReflTransGen (Sighting.Step .cut) b c ∧
      c.spot.isRestoring = true := by
  obtain ⟨w, hw, h⟩ := Option.bind_eq_some_iff.mp h
  obtain ⟨a', ha, h⟩ := Option.bind_eq_some_iff.mp h
  obtain ⟨b', hb, h⟩ := Option.bind_eq_some_iff.mp h
  obtain ⟨c', hc, heq⟩ := Option.map_eq_some_iff.mp h
  cases heq
  obtain ⟨hreaches, hawaits⟩ := World.reaches_seek? hw
  obtain ⟨hwithin, hrestoring⟩ := Sighting.within_seek? hc
  have hworld := Sighting.world_of_atWork? ha
  refine ⟨.head (.greenFlag m) (hworld ▸ hreaches), ?_, Sighting.step_next? hb,
    Relation.ReflTransGen.mono (fun _ _ hstep => hstep.1) _ _ hwithin, hrestoring⟩
  cases w with
  | rest | pass => cases hawaits
  | turn t l code =>
    cases code with
    | nil => cases hawaits
    | cons st rest =>
      cases ha
      exact ⟨_, _, _, _, rfl, hawaits⟩

/-- A thread behind its wait does not wait. -/
theorem Spot.not_waiting_of_isRestoring {x : Spot} {k : Label} {g : GroupId}
    (h : x.isRestoring = true) : ¬ x.Waiting k g := by
  intro hwaiting
  cases hwaiting with
  | poll _ _ hwait =>
    cases hwait
    cases h
  | again | seat => cases h

/-- The sprite waits for three frames, until the group of its message is not running any more. -/
theorem World.calling_rendezvous :
    ∃ programs, ∃ m : Machine Headless, ∃ a b c : Sighting Headless, ∃ k g,
      callingProject.compile = .ok programs ∧
      Machine.load callingProject programs {} {} .still = .ok m ∧
      World.Arises m a.world ∧ Sighting.Step .cut a b ∧
      a.world.Issues b.world g ∧ b.spot.Waiting k g ∧
      b.world.machine.isGroupRunning g = true ∧
      c.world.machine.frame = b.world.machine.frame + 3 ∧
      (∃ x y, Relation.ReflTransGen (fun x y => Sighting.Step .cut x y ∧ y.spot.Waiting k g) b x ∧
        Sighting.Step .cut x y ∧ Sighting.Passes k g x y ∧
        Relation.ReflTransGen (Sighting.Step .cut) y c) ∧
      ∀ v, World.Reaches .cut c.world v → v.machine.isGroupRunning g = false := by
  have hrun : ((Player.loadProject callingProject {} ({} : Headless)
      .still).toOption.bind Machine.firstWait?).map
        (fun s => (s.2.1.world.machine.isGroupRunning s.2.1.world.machine.lastGroup,
          s.2.1.world.machine.frame, s.2.2.world.machine.frame)) =
        some (true, 0, 3) := by
    decide +kernel
  obtain ⟨⟨a, b, c⟩, hwait, hstates⟩ := Option.map_eq_some_iff.mp hrun
  obtain ⟨m, hm, hwait⟩ := Option.bind_eq_some_iff.mp hwait
  have hbusy : b.world.machine.isGroupRunning b.world.machine.lastGroup = true :=
    congrArg (·.1) hstates
  have hstart : b.world.machine.frame = 0 := congrArg (·.2.1) hstates
  have hend : c.world.machine.frame = 3 := congrArg (·.2.2) hstates
  obtain ⟨ha, ⟨t, l, st, rest, hspot, hst⟩, hab, hbc, hrestoring⟩ := Machine.firstWait?_spec hwait
  have hframes : c.world.machine.frame = b.world.machine.frame + 3 := by rw [hstart, hend]
  have hload := eq_ok_of_toOption hm
  obtain ⟨programs, hcompile, hload⟩ := except_bind_eq_ok.mp hload
  obtain ⟨hreturned, hgroups, hwaits⟩ := World.rendezvous_safe hload
  obtain ⟨k, g, hissues, hwaiting, hpasses⟩ :=
    hwaits hcompile a b ha hab t l st rest hspot hst
  have hgathers := hgroups a.world b.world g ha hab.1 hissues
  have hg : b.world.machine.lastGroup = g := by
    obtain ⟨σ, m₀, hcalls, hsent, -⟩ := hgathers.sent
    rw [hcalls.issued, (hreturned σ m₀).2, hsent]
  rw [hg] at hbusy
  obtain ⟨x, y, hbx, hxy, hpass, hyc⟩ :=
    (hpasses c hbc).resolve_left (Spot.not_waiting_of_isRestoring hrestoring)
  refine ⟨programs, m, a, b, c, k, g, hcompile, hload, ha, hab, hissues, hwaiting, hbusy,
    hframes, ⟨x, y, hbx, hxy, hpass, hyc⟩, fun v hv => ?_⟩
  have hreaches {x y : Sighting Headless}
      (h : Relation.ReflTransGen (Sighting.Step .cut) x y) : World.Reaches .cut x.world y.world :=
    Relation.ReflTransGen.lift Sighting.world (fun _ _ hstep => hstep.1) _ _ h
  have hbx' := hreaches (Relation.ReflTransGen.mono (fun _ _ hstep => hstep.1) _ _ hbx)
  have hxv : World.Reaches .cut x.world v := .trans (.head hxy.1 (hreaches hyc)) hv
  cases hpass with
  | mk _ _ _ hover =>
    exact hgathers.stopped x.world v hbx' hxv hover

end BlockScript
