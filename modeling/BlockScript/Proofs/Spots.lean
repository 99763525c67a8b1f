import BlockScript.Proofs.Order

/-!
# One thread in a run

A run of a project moves many threads. Here one of them is followed through it: while the others
have their turns it waits in its seat as it is, and in its own turns it goes on as its statements
say.

* `Spot`: where a thread is, in its seat or in its turn;
* `World.Sees`: a state has a thread at a spot;
* `Spot.Step`: what one step does to a thread;
* `World.Sees.unique`: a state has each thread at one spot only;
* `World.Sees.step`: from one state to the next a thread takes a step of its own, or stays;
* `Sighting`: a state and a thread in it, with the runs that do not lose sight of the thread.
-/

namespace BlockScript

/-- Where a thread is: in its seat, or in its turn with the label that it came to last and the
    statements that it has left. -/
inductive Spot
  | seat (t : Thread)
  | work (t : Thread) (l : Label) (code : List Stmt)

namespace Spot

/-- The thread. -/
def thread : Spot → Thread
  | .seat t => t
  | .work t _ _ => t

/-- The label that the thread resumes at, or came to last. -/
def label : Spot → Label
  | .seat t => t.continuation
  | .work _ l _ => l

/-- How many procedures the thread is inside of. -/
def depth (x : Spot) : Nat := x.thread.calls.length

/-- What one step of a run does to a thread whose target has a program. -/
inductive Step (R : Rules) (p : Program) : Spot → Spot → Prop
  /-- Others are at work, or a pass ends. -/
  | stay (t : Thread) (ready : Bool) : Step R p (.seat t) (.seat { t with ready })
  | enter {t : Thread} {code : List Stmt} (hc : R.finds p t.continuation code) :
      Step R p (.seat t) (.work t t.continuation code)
  | onward {s : Stmt} {t t' : Thread} {code : List Stmt} (h : Act.Onward s t code t') (l : Label)
      (rest : List Stmt) : Step R p (.work t l (s :: rest)) (.work t' l (code ++ rest))
  | jump {s : Stmt} {t t' : Thread} {k : Label} {code : List Stmt} (h : Act.Departs p s t k t')
      (hc : R.finds p k code) (l : Label) (rest : List Stmt) :
      Step R p (.work t l (s :: rest)) (.work t' k code)
  /-- The end of a procedure is no reason to yield. -/
  | yield {s : Stmt} {t t' : Thread} {k : Label} (h : Act.Departs p s t k t')
      (hs : s ≠ .endCall) (l : Label) (rest : List Stmt) :
      Step R p (.work t l (s :: rest)) (.seat { t' with continuation := k })

end Spot

/-! ## 1. Threads that wait -/

/-- Whose script a thread runs. -/
def Thread.script (t : Thread) : TargetId × Label := (t.target, t.base)

theorem Thread.Same.script {t t' : Thread} (h : Thread.Same t t') : t'.script = t.script := by
  unfold Thread.script
  rw [h.target, h.base]

namespace Machine

variable {H : Type}

/-- The thread waits, and the program is that of its target. -/
def Waits (m : Machine H) (p : Program) (t : Thread) : Prop :=
  .waiting t ∈ m.queue ∧ ∃ target, m.target? t.target = some target ∧ target.program = p

theorem Waits.unique {m : Machine H} (hm : m.Distinct) {p q : Program} {t u : Thread}
    (ht : m.Waits p t) (hu : m.Waits q u) (h : u.script = t.script) : q = p ∧ u = t := by
  obtain ⟨ht, target, htarget, rfl⟩ := ht
  obtain ⟨hu, target', htarget', rfl⟩ := hu
  obtain ⟨i, hi⟩ := List.getElem?_of_mem ht
  obtain ⟨j, hj⟩ := List.getElem?_of_mem hu
  have hij : i = j := hm i j t.script (occupant?_waiting hi) (h ▸ occupant?_waiting hj)
  subst hij
  cases hi.symm.trans hj
  cases htarget.symm.trans htarget'
  exact ⟨rfl, rfl⟩

/-- A thread of an event of before waited before. -/
theorem Waits.back {I : Invariant} {m m' : Machine H} (hm : m.Sound I) (he : m.Evolves m')
    (hl : m.Lasts m') {p : Program} {t : Thread} (ht : m'.Waits p t)
    (hgroup : t.group ≤ m.lastGroup) : m.Waits p t := by
  obtain ⟨hwaits, target', htarget', rfl⟩ := ht
  obtain ⟨i, hi⟩ := List.getElem?_of_mem hwaits
  rcases he.seats.waiting i t hi with hold | ⟨hnew, -⟩
  · have hmem := List.mem_of_getElem? hold
    obtain ⟨target, htarget, -⟩ := hm.thread t hmem
    exact ⟨hmem, target, htarget, (hl _ _ _ htarget htarget').symm⟩
  · exact absurd hgroup (Nat.not_le.mpr hnew)

theorem waiting_settle {m : Machine H} {seat : Nat} {s : Seat} {t : Thread}
    (h : .waiting t ∈ (m.settle seat s).queue) : .waiting t ∈ m.queue ∨ s = .waiting t := by
  unfold settle at h
  dsimp only at h
  split at h
  · rcases List.mem_or_eq_of_mem_set h with hold | heq
    · exact .inl hold
    · exact .inr heq.symm
  · exact .inl h

/-- At the end of a turn the others wait as before. -/
theorem Waits.settle {m : Machine H} {seat : Nat} {s : Seat} {p : Program} {t : Thread}
    (h : (m.settle seat s).Waits p t) : m.Waits p t ∨ s = .waiting t := by
  obtain ⟨hwaits, target, htarget, hprogram⟩ := h
  rcases waiting_settle hwaits with hold | hnew
  · exact .inl ⟨hold, target, htarget, hprogram⟩
  · exact .inr hnew

theorem Waits.lend {m : Machine H} {seat : Nat} {t₀ : Thread} {p : Program} {t : Thread}
    (h : (m.lend seat t₀).Waits p t) : m.Waits p t := by
  obtain ⟨hwaits, htarget⟩ := h
  rcases List.mem_or_eq_of_mem_set hwaits with hold | heq
  · exact ⟨hold, htarget⟩
  · cases heq

/-- At the end of a pass the threads that wait are those of before. -/
theorem Waits.endPass {m : Machine H} {p : Program} {t : Thread} (h : m.endPass.Waits p t) :
    ∃ t₀ : Thread, m.Waits p t₀ ∧ t = { t₀ with ready := t.ready } := by
  obtain ⟨hwaits, htarget⟩ := h
  obtain ⟨s, hs, heq⟩ := List.mem_filterMap.mp hwaits
  split at heq
  · rename_i t₀
    cases heq
    exact ⟨t₀, ⟨hs, htarget⟩, rfl⟩
  · cases heq

/-- An event leaves the targets alone. -/
theorem targets_trigger (m : Machine H) (e : Event) : (m.trigger e).2.targets = m.targets := by
  have hfold (ids : List TargetId) (group : GroupId) (m : Machine H) :
      (ids.foldl (fun m id => m.startListeners id e group) m).targets = m.targets := by
    induction ids generalizing m with
    | nil => rfl
    | cons id rest ih =>
      have hstart : (m.startListeners id e group).targets = m.targets :=
        startListeners_induction (P := fun m' => m'.targets = m.targets) rfl fun m' base h =>
          (targets_startThread m' id base group).trans h
      exact (ih _).trans hstart
  exact hfold _ _ _

end Machine

/-- What is asked for between two frames leaves the targets their programs. -/
theorem Request.lasts {H : Type} [Host H] {I : Invariant} {r : Request H}
    {f : Machine H → Machine H} (h : r.change? = some f) {m : Machine H} (hm : m.Sound I) :
    m.Lasts (f m) := by
  have hlasts {m' : Machine H} (hc : m.Continues I m') : m.Lasts m' := (hc hm).2.lasts
  cases r <;> cases h
  case greenFlag.refl =>
    refine Machine.lasts_of_left fun id t ht => Machine.left_stopAll ?_
    have htargets : m.greenFlag.2.targets = m.stopAll.targets :=
      Machine.targets_trigger m.stopAll.resetTimer .flag
    unfold Machine.target? at ht ⊢
    rw [htargets] at ht
    exact ht
  case trigger.refl e => exact hlasts (m.continues_trigger e)
  case triggerFor.refl id e => exact hlasts (m.continues_triggerFor id e)
  case switchBackdrop.refl v => exact hlasts (m.continues_switchBackdrop v)
  case createClone.refl of => exact hlasts (m.continues_createClone of)
  case deleteClone.refl id => exact Machine.lasts_of_left fun _ _ => Machine.left_deleteClone
  case stopAll.refl => exact Machine.lasts_of_left fun _ _ => Machine.left_stopAll
  case stopTarget.refl id keep => exact hlasts (m.continues_stopTarget id keep)
  case halt.refl | resetTimer.refl | attend.refl f => exact Machine.lasts_of_left fun _ _ ht => ht

/-! ## 2. Sights -/

namespace World

variable {H : Type}

/-- The state has a thread at the spot, and the program is that of its target. -/
inductive Sees : World H → Program → Spot → Prop
  | seat {w : World H} {p : Program} {t : Thread} (h : w.machine.Waits p t) : Sees w p (.seat t)
  | work (t : Turn H) (l : Label) (code : List Stmt) (length : Nat) (seats : List Nat) :
      Sees (.turn t l code length seats) t.program (.work t.thread l code)

variable {R : Rules} {D : Discipline R} {w w' : World H} {p q : Program} {x y : Spot}

/-- The script of the thread at work is not that of a thread that waits. -/
theorem script_ne_of_waits {t : Turn H} (htidy : t.machine.Tidy) (hs : Act.Seated t) {u : Thread}
    (hu : t.machine.Waits p u) : u.script ≠ t.thread.script := by
  intro heq
  obtain ⟨i, hi⟩ := List.getElem?_of_mem hu.1
  have hrunning : t.machine.occupant? t.seat = some t.thread.script :=
    Machine.occupant?_running hs.running hs.seat
  rw [← heq] at hrunning
  have hseat : i = t.seat :=
    htidy.distinct i t.seat u.script (Machine.occupant?_waiting hi) hrunning
  rw [hseat, hs.seat] at hi
  cases hi

/-- **A state has each thread at one spot only.** -/
theorem Sees.unique (hw : w.Sound D) (hx : w.Sees p x) (hy : w.Sees q y)
    (h : y.thread.script = x.thread.script) : q = p ∧ y = x := by
  cases hx with
  | seat hx =>
    cases hy with
    | seat hy =>
      obtain ⟨hp, ht⟩ := hx.unique hw.machine.2.distinct hy h
      exact ⟨hp, congrArg Spot.seat ht⟩
    | work t =>
      obtain ⟨⟨-, htidy⟩, ⟨hs, -⟩, -⟩ := hw
      exact absurd h.symm (script_ne_of_waits htidy hs hx)
  | work t =>
    cases hy with
    | seat hy =>
      obtain ⟨⟨-, htidy⟩, ⟨hs, -⟩, -⟩ := hw
      exact absurd h (script_ne_of_waits htidy hs hy)
    | work => exact ⟨rfl, rfl⟩

/-- The program of a thread is as a discipline asks. -/
theorem Sees.program (hw : w.Sound D) (hx : w.Sees p x) : D.program p := by
  cases hx with
  | seat hx =>
    obtain ⟨-, target, htarget, rfl⟩ := hx
    exact hw.machine.1.program _ _ htarget
  | work => exact program_of_seated hw.1.1 hw.2.1.1

/-- The threads of a state belong to events that there were. -/
theorem Sees.issued (hw : w.Sound D) (hx : w.Sees p x) :
    x.thread.group ≤ w.machine.lastGroup := by
  cases hx with
  | seat hx => exact hw.machine.2.issued _ hx.1
  | work => exact hw.2.1.2

variable [Host H]

/-- Each thread of a state that is not of an event since was there before, one step back. -/
theorem Step.sight (h : Step R w w') (hw : w.Sound D) (hy : w'.Sees p y)
    (hgroup : y.thread.group ≤ w.machine.lastGroup) :
    ∃ x, w.Sees p x ∧ Spot.Step R p x y ∧ Thread.Same x.thread y.thread := by
  -- where a thread waits already, it stays
  have hstay {t : Thread} (ready : Bool) (ht : w.machine.Waits p t) :
      ∃ x, w.Sees p x ∧ Spot.Step R p x (.seat { t with ready }) ∧
        Thread.Same x.thread { t with ready } :=
    ⟨.seat t, .seat ht, .stay t ready, ⟨rfl, rfl, rfl⟩⟩
  have hold {t : Thread} (ht : w.machine.Waits p t) :
      ∃ x, w.Sees p x ∧ Spot.Step R p x (.seat t) ∧ Thread.Same x.thread t := hstay t.ready ht
  -- whoever waits after a statement waited before it
  have hpass {t t' : Turn H} {l : Label} {code : List Stmt} {length : Nat} {seats : List Nat}
      (heq : w = .turn t l code length seats) (hp : Act.Passes D.toInvariant t t') {u : Thread}
      (hu : t'.machine.Waits p u) (hug : u.group ≤ w.machine.lastGroup) : w.machine.Waits p u := by
    subst heq
    exact hu.back hw.machine.1 hp.evolves hp.lasts hug
  cases h with
  | request hr m =>
    cases hy with
    | seat hu =>
      exact hold (hu.back (Machine.Settled.sound hw) (Machine.Settled.evolves hr hw)
        (Request.lasts hr (Machine.Settled.sound hw)) hgroup)
  | setClock | start | lapse | skip =>
    cases hy with
    | seat hu => exact hold hu
  | again | close =>
    cases hy with
    | seat hu =>
      obtain ⟨t, ht, heq⟩ := Machine.Waits.endPass hu
      rw [heq]
      exact hstay _ ht
  | refuse =>
    cases hy with
    | seat hu =>
      rcases hu.settle with hu | heq
      · exact hold hu.lend
      · cases heq
  | @enter m i t target code hready htarget hcode length seats =>
    cases hy with
    | seat hu => exact hold (Machine.Waits.lend hu)
    | work =>
      have hwaits := List.mem_of_getElem? (Machine.getElem?_of_ready? hready)
      exact ⟨.seat t, .seat ⟨hwaits, target, htarget, rfl⟩, .enter hcode, .refl t⟩
  | @onward s t t' code hexec l rest length seats =>
    obtain ⟨⟨hm, -⟩, ⟨hs, -⟩, -⟩ := id hw
    have hp := (passes_of_exec hexec hm hs).1
    cases hy with
    | seat hu => exact hold (hpass rfl hp hu hgroup)
    | work =>
      rw [hp.program]
      exact ⟨_, .work t l (s :: rest) length seats, .onward (Act.exec_onward hexec) l rest,
        hp.thread⟩
  | @jump s t t' k code hexec hcode l rest length seats =>
    obtain ⟨⟨hm, -⟩, ⟨hs, -⟩, -⟩ := id hw
    have hp := (passes_of_exec hexec hm hs).1
    cases hy with
    | seat hu => exact hold (hpass rfl hp hu hgroup)
    | work =>
      rw [hp.program] at hcode ⊢
      exact ⟨_, .work t l (s :: rest) length seats,
        .jump (Act.exec_departs hexec rfl) hcode l rest, hp.thread⟩
  | @leave s t t' e seat hexec he l rest length seats =>
    obtain ⟨⟨hm, -⟩, ⟨hs, -⟩, -⟩ := id hw
    obtain ⟨hp, hseated⟩ := passes_of_exec hexec hm hs
    cases hy with
    | seat hu =>
      rcases hu.settle with hu' | heq
      · exact hold (hpass rfl hp hu' hgroup)
      · -- the thread goes back to its seat
        cases e with
        | jump => cases he
        | stop | detached =>
          cases he
          cases heq
        | yield k =>
          cases he
          cases heq
          obtain ⟨-, target, htarget, hprogram⟩ := hu
          obtain ⟨target', htarget', hprogram'⟩ := (hseated nofun).target
          cases htarget.symm.trans htarget'
          have hend : s ≠ .endCall := by
            rintro rfl
            rw [Act.exec_endCall] at hexec
            split at hexec <;> cases hexec
          rw [← hprogram, hprogram', hp.program]
          exact ⟨_, .work t l (s :: rest) length seats,
            .yield (Act.exec_departs hexec rfl) hend l rest, hp.thread.trans ⟨rfl, rfl, rfl⟩⟩
  | finish t l length seats =>
    cases hy with
    | seat hu =>
      rcases hu.settle with hu | heq
      · exact hold hu
      · cases heq
  | @fail t t' code hfails l length seats =>
    obtain ⟨⟨hm, -⟩, ⟨hs, -⟩, -⟩ := id hw
    cases hy with
    | seat hu =>
      rcases hu.settle with hu | heq
      · exact hold (hpass rfl (hfails.passes hm hs) hu hgroup)
      · cases heq

/-- **From one state to the next a thread takes a step of its own, or stays**, and it has the same
    program. -/
theorem Sees.step (hw : w.Sound D) (hx : w.Sees p x) (h : Step R w w') (hy : w'.Sees q y)
    (hsame : Thread.Same x.thread y.thread) : q = p ∧ Spot.Step R p x y := by
  have hgroup : y.thread.group ≤ w.machine.lastGroup := by
    rw [hsame.group]
    exact hx.issued hw
  obtain ⟨x', hx', hstep, hsame'⟩ := h.sight hw hy hgroup
  have hscript : x'.thread.script = x.thread.script := by
    rw [← hsame'.script, hsame.script]
  obtain ⟨rfl, rfl⟩ := hx.unique hw hx' hscript
  exact ⟨rfl, hstep⟩

end World

/-! ## 3. Runs that do not lose sight of a thread -/

/-- A state, and a thread in it. -/
structure Sighting (H : Type) where
  world : World H
  program : Program
  spot : Spot
  sees : world.Sees program spot

namespace Sighting

variable {H : Type} [Host H]

/-- One step of a run, after which the thread is still there. -/
def Step (R : Rules) (a b : Sighting H) : Prop :=
  World.Step R a.world b.world ∧ Thread.Same a.spot.thread b.spot.thread

/-- A run in which the thread is inside of at least so many procedures all the time. -/
def Within (R : Rules) (depth : Nat) : Sighting H → Sighting H → Prop :=
  Relation.ReflTransGen fun a b => Step R a b ∧ depth ≤ b.spot.depth

variable {R : Rules} {D : Discipline R} {a b : Sighting H}

/-- What the thread does in a step. -/
theorem Step.spot (h : Step R a b) (ha : a.world.Sound D) :
    b.world.Sound D ∧ b.program = a.program ∧ Spot.Step R a.program a.spot b.spot := by
  obtain ⟨hstep, hsame⟩ := h
  exact ⟨hstep.sound ha, a.sees.step ha hstep b.sees hsame⟩

theorem Within.reaches {depth : Nat} (h : Within R depth a b) :
    World.Reaches R a.world b.world := by
  induction h with
  | refl => exact .refl
  | tail _ hstep ih => exact .tail ih hstep.1.1

theorem Within.le_depth {depth : Nat} (h : Within R depth a b) (ha : depth ≤ a.spot.depth) :
    depth ≤ b.spot.depth := by
  cases h with
  | refl => exact ha
  | tail _ hstep => exact hstep.2

end Sighting

/-! ## 4. Runs that can be computed -/

/-- A way to look up what a thread finds at a label. -/
structure Finder (R : Rules) where
  find? : Program → Label → Option (List Stmt)
  reads {p : Program} {l : Label} {code : List Stmt} (h : find? p l = some code) : R.finds p l code

/-- Continuations are looked up in the program. -/
def Finder.cut : Finder .cut where
  find? p l := (p.continuation? l).map (·.body)
  reads h := by
    obtain ⟨c, hc, rfl⟩ := Option.map_eq_some_iff.mp h
    exact ⟨c, hc, rfl⟩

/-- So they are while the clock stays the same. -/
def Finder.steady : Finder .steady := ⟨Finder.cut.find?, Finder.cut.reads⟩

namespace World

variable {H : Type} [Host H] {R : Rules} (f : Finder R)

/-- The next state, where nothing is asked for from outside and nothing goes wrong. -/
def next? : World H → Option (World H)
  | .rest m => some (.pass { m with visual := false } m.queue.length (List.range m.queue.length))
  | .pass m _ [] => some (.rest { m.endPass with clock := m.clock.advance, frame := m.frame + 1 })
  | .pass m length (i :: seats) =>
    match m.ready? i with
    | none => some (.pass m length seats)
    | some t =>
      (m.target? t.target).bind fun target =>
        (f.find? target.program t.continuation).map fun code =>
          .turn ⟨m.lend i t, t, i, target.program⟩ t.continuation code length seats
  | .turn t _ [] length seats => some (.pass (t.machine.settle t.seat .empty) length seats)
  | .turn t l (s :: code) length seats =>
    match Act.exec s t with
    | .ok (.onward first) t' => some (.turn t' l (first ++ code) length seats)
    | .ok (.leave (.jump k)) t' =>
      (f.find? t'.program k).map fun code => .turn t' k code length seats
    | .ok (.leave e) t' =>
      (e.seat? t'.thread).map fun seat => .pass (t'.machine.settle t'.seat seat) length seats
    | .error _ _ => none

variable {f}

theorem step_next? {w w' : World H} (h : w.next? f = some w') : Step R w w' := by
  cases w with
  | rest m =>
    cases h
    exact .start m
  | pass m length seats =>
    cases seats with
    | nil =>
      cases h
      exact .close m length
    | cons i seats =>
      unfold next? at h
      dsimp only at h
      cases hready : m.ready? i with
      | none =>
        rw [hready] at h
        cases h
        exact .skip hready length seats
      | some t =>
        rw [hready] at h
        obtain ⟨target, htarget, h⟩ := Option.bind_eq_some_iff.mp h
        obtain ⟨code, hcode, rfl⟩ := Option.map_eq_some_iff.mp h
        exact .enter hready htarget (f.reads hcode) length seats
  | turn t l code length seats =>
    cases code with
    | nil =>
      cases h
      exact .finish t l length seats
    | cons s rest =>
      unfold next? at h
      dsimp only at h
      split at h
      · rename_i hexec
        cases h
        exact .onward hexec l rest length seats
      · rename_i hexec
        obtain ⟨code, hcode, rfl⟩ := Option.map_eq_some_iff.mp h
        exact .jump hexec (f.reads hcode) l rest length seats
      · rename_i hexec
        obtain ⟨seat, hseat, rfl⟩ := Option.map_eq_some_iff.mp h
        exact .leave hexec hseat l rest length seats
      · cases h

/-- The first state of so many that is as wanted. -/
def seek? (f : Finder R) (wanted : World H → Bool) : Nat → World H → Option (World H)
  | 0, _ => none
  | steps + 1, w => if wanted w then some w else (w.next? f).bind (seek? f wanted steps)

theorem reaches_seek? {wanted : World H → Bool} {steps : Nat} {w w' : World H}
    (h : w.seek? f wanted steps = some w') : Reaches R w w' ∧ wanted w' = true := by
  induction steps generalizing w with
  | zero => cases h
  | succ steps ih =>
    unfold seek? at h
    split at h
    · rename_i hwanted
      cases h
      exact ⟨.refl, hwanted⟩
    · obtain ⟨w₁, hnext, h⟩ := Option.bind_eq_some_iff.mp h
      obtain ⟨hreaches, hwanted⟩ := ih h
      exact ⟨.head (step_next? hnext) hreaches, hwanted⟩

end World

namespace Sighting

variable {H : Type}

/-- The thread at work. -/
def atWork? : World H → Option (Sighting H)
  | .turn t l code length seats => some ⟨_, _, _, .work t l code length seats⟩
  | _ => none

/-- A thread that waits. -/
def inSeat? (w : World H) : { s // s ∈ w.machine.queue } → Option (Sighting H)
  | ⟨.waiting t, ht⟩ =>
    match htarget : w.machine.target? t.target with
    | some target => some ⟨w, target.program, .seat t, .seat ⟨ht, target, htarget, rfl⟩⟩
    | none => none
  | _ => none

/-- All threads of a state. -/
def all (w : World H) : List (Sighting H) :=
  (atWork? w).toList ++ w.machine.queue.attach.filterMap (inSeat? w)

theorem world_of_atWork? {w : World H} {a : Sighting H} (h : atWork? w = some a) : a.world = w := by
  cases w with
  | turn =>
    cases h
    rfl
  | rest | pass => cases h

theorem world_of_mem_all {w : World H} {a : Sighting H} (h : a ∈ all w) : a.world = w := by
  rcases List.mem_append.mp h with h | h
  · exact world_of_atWork? (Option.mem_toList.mp h)
  · obtain ⟨⟨s, hs⟩, -, h⟩ := List.mem_filterMap.mp h
    cases s with
    | empty | running => cases h
    | waiting t =>
      unfold inSeat? at h
      dsimp only at h
      split at h
      · cases h
        rfl
      · cases h

instance (t t' : Thread) : Decidable (Thread.Same t t') :=
  decidable_of_iff (t'.target = t.target ∧ t'.base = t.base ∧ t'.group = t.group)
    ⟨fun h => ⟨h.1, h.2.1, h.2.2⟩, fun h => ⟨h.target, h.base, h.group⟩⟩

variable [Host H] {R : Rules} (f : Finder R)

/-- The next state, if the thread is still there. -/
def next? (a : Sighting H) : Option (Sighting H) :=
  (a.world.next? f).bind fun w => (all w).find? fun b => Thread.Same a.spot.thread b.spot.thread

variable {f}

theorem step_next? {a b : Sighting H} (h : a.next? f = some b) : Step R a b := by
  obtain ⟨w, hw, h⟩ := Option.bind_eq_some_iff.mp h
  have hworld := world_of_mem_all (List.mem_of_find?_eq_some h)
  subst hworld
  exact ⟨World.step_next? hw, by simpa using List.find?_some h⟩

/-- The first state of so many that is as wanted, if the thread is inside of at least so many
    procedures until then. -/
def seek? (f : Finder R) (depth : Nat) (wanted : Sighting H → Bool) :
    Nat → Sighting H → Option (Sighting H)
  | 0, _ => none
  | steps + 1, a =>
    if wanted a then some a
    else (a.next? f).bind fun b =>
      if depth ≤ b.spot.depth then seek? f depth wanted steps b else none

theorem seek?_spec {depth : Nat} {wanted : Sighting H → Bool} {steps : Nat} {a b : Sighting H}
    (h : a.seek? f depth wanted steps = some b) :
    Relation.ReflTransGen (fun a b => Step R a b ∧ depth ≤ b.spot.depth ∧ wanted a = false) a b ∧
      wanted b = true := by
  induction steps generalizing a with
  | zero => cases h
  | succ steps ih =>
    unfold seek? at h
    split at h
    · rename_i hwanted
      cases h
      exact ⟨.refl, hwanted⟩
    · rename_i hstill
      obtain ⟨a', hnext, h⟩ := Option.bind_eq_some_iff.mp h
      split at h
      · rename_i hdepth
        obtain ⟨hrun, hwanted⟩ := ih h
        exact ⟨.head ⟨step_next? hnext, hdepth, Bool.eq_false_iff.mpr hstill⟩ hrun, hwanted⟩
      · cases h

theorem within_seek? {depth : Nat} {wanted : Sighting H → Bool} {steps : Nat} {a b : Sighting H}
    (h : a.seek? f depth wanted steps = some b) : Within R depth a b ∧ wanted b = true := by
  obtain ⟨hrun, hwanted⟩ := seek?_spec h
  exact ⟨Relation.ReflTransGen.mono (fun _ _ hstep => ⟨hstep.1, hstep.2.1⟩) _ _ hrun, hwanted⟩

end Sighting

end BlockScript
