import BlockScript.Proofs.Pacing
import BlockScript.Proofs.Passes

/-!
# Waits for some time

A thread that waits for some time gives up its turn at least once, and then goes on in the first
turn in which the clock says that the time has passed. A frame can have several passes, so a wait
for no time at all may be over in the frame in which it began; a wait for some time is not, because
a fixed clock moves only when a frame ends.

* `Compile.Command.Waits.compile`: what blocks that wait become;
* `Spot.Pausing`: a thread is in a wait;
* `Spot.Counting`: what it remembers in each phase of the wait;
* `Sighting.counting_step`: it waits on, or leaves the wait because the time has passed;
* `World.wait_lasts`: what holds of every wait.
-/

namespace BlockScript

/-! ## 1. Blocks that wait -/

namespace Compile.Command

/-- The block waits for some time: these statements come first, and then the wait. -/
inductive Waits (s : Command) : List Stmt → Expr → Prop
  | pause {duration : Expr} (hopcode : s.block.opcode = "control_wait")
      (hduration : s.number "DURATION" = .ok duration) : Waits s [] duration
  | say {message secs : Expr} (hopcode : s.block.opcode = "looks_sayforsecs")
      (hmessage : s.any "MESSAGE" = .ok message) (hsecs : s.number "SECS" = .ok secs) :
      Waits s [.looks (.say message false)] secs
  | think {message secs : Expr} (hopcode : s.block.opcode = "looks_thinkforsecs")
      (hmessage : s.any "MESSAGE" = .ok message) (hsecs : s.number "SECS" = .ok secs) :
      Waits s [.looks (.say message true)] secs

theorem compile_speech {s : Command} {message secs : Expr} {think : Bool}
    (h : s.compile? = some (s.speechFor think)) (hmessage : s.any "MESSAGE" = .ok message)
    (hsecs : s.number "SECS" = .ok secs) (n : Label) :
    s.compile n = .ok (.looks (.say message think) :: timedWait n secs ++
      [.looks (.say (.text "") think)], n + 1) := by
  unfold Command.compile
  rw [h, Option.getD_some, speechFor, hmessage, hsecs]
  rfl

/-- **What a block that waits becomes**: it notes when the wait begins and how long it lasts, and
    comes to the label of the wait. -/
theorem Waits.compile {s : Command} {before : List Stmt} {duration : Expr}
    (h : s.Waits before duration) (n : Label) :
    ∃ rest, Script.WaitPoll n rest ∧ s.compile n = .ok (before ++ .save ::
      (Script.noting (waitNotes duration) ++ .label n :: rest), n + 1) := by
  cases h with
  | pause hopcode hduration =>
    have hcode : s.compile? = some (do
        let duration ← s.number "DURATION"
        return timedWait (← freshLabel) duration) := by
      unfold compile?
      rw [hopcode]
      rfl
    refine ⟨_, .mk [] [.restore], ?_⟩
    unfold Command.compile
    rw [hcode, Option.getD_some, hduration]
    rfl
  | @say message secs hopcode hmessage hsecs =>
    have hcode : s.compile? = some (s.speechFor false) := by
      unfold compile?
      rw [hopcode]
      rfl
    exact ⟨_, .mk [] [.restore, .looks (.say (.text "") false)],
      compile_speech hcode hmessage hsecs n⟩
  | @think message secs hopcode hmessage hsecs =>
    have hcode : s.compile? = some (s.speechFor true) := by
      unfold compile?
      rw [hopcode]
      rfl
    exact ⟨_, .mk [] [.restore, .looks (.say (.text "") true)],
      compile_speech hcode hmessage hsecs n⟩

end Compile.Command

/-! ## 2. In a wait -/

namespace Spot

/-- The thread is in the wait at the label: it notes what it has to note, asks whether the time has
    passed, leaves its turn because it has not, or waits for its next turn. -/
inductive Pausing (duration : Expr) (k : Label) : Spot → Prop
  | noting (t : Thread) (l : Label) {left : List (Register × Expr)} {after : List Stmt}
      (h : left <:+ Compile.waitNotes duration) (hpoll : Script.WaitPoll k after) :
      Pausing duration k (.work t l (Script.noting left ++ after))
  | lowering (t : Thread) (l : Label) (behind : List Stmt) :
      Pausing duration k (.work t l (.setRegister .first Compile.zero :: .forceQueue k :: behind))
  | leaving (t : Thread) (l : Label) (behind : List Stmt) :
      Pausing duration k (.work t l (.forceQueue k :: behind))
  | seated {t : Thread} (hk : t.continuation = k) : Pausing duration k (.seat t)

/-- Once the thread has noted everything: which phase of the wait it is in. Until it has given up
    its turn it remembers that no turn has passed; then it stays in its seat in the pass at hand
    (`gone`), and has its next turn only in another one (`renewed`). -/
inductive Counting (k : Label) (rs : Registers) (gone renewed : Prop) : Spot → Prop
  | fresh {t : Thread} {l : Label} {after : List Stmt} (hrs : t.registers = rs.set .first 1.0)
      (hpoll : Script.WaitPoll k after) : Counting k rs gone renewed (.work t l after)
  | lowering {t : Thread} {l : Label} {x : Float} {behind : List Stmt}
      (hrs : t.registers = rs.set .first x) :
      Counting k rs gone renewed
        (.work t l (.setRegister .first Compile.zero :: .forceQueue k :: behind))
  | leaving {t : Thread} {l : Label} {behind : List Stmt} (hrs : t.registers = rs.set .first 0.0) :
      Counting k rs gone renewed (.work t l (.forceQueue k :: behind))
  | seated {t : Thread} (hrs : t.registers = rs.set .first 0.0) (hk : t.continuation = k)
      (hturn : gone ∨ renewed) : Counting k rs gone renewed (.seat t)
  | asking {t : Thread} {l : Label} {after : List Stmt} (hrs : t.registers = rs.set .first 0.0)
      (hpoll : Script.WaitPoll k after) (hturn : renewed) :
      Counting k rs gone renewed (.work t l after)

variable {k : Label} {rs : Registers} {gone renewed renewed' : Prop} {x : Spot}

theorem Counting.mono (h : x.Counting k rs gone renewed) (himp : renewed → renewed') :
    x.Counting k rs gone renewed' := by
  cases h with
  | fresh hrs hpoll => exact .fresh hrs hpoll
  | lowering hrs => exact .lowering hrs
  | leaving hrs => exact .leaving hrs
  | seated hrs hk hturn => exact .seated hrs hk (hturn.imp_right himp)
  | asking hrs hpoll hturn => exact .asking hrs hpoll (himp hturn)

theorem Counting.pausing (h : x.Counting k rs gone renewed) (duration : Expr) :
    x.Pausing duration k := by
  have hall : [] <:+ Compile.waitNotes duration := List.nil_suffix
  cases h with
  | fresh _ hpoll | asking _ hpoll => exact .noting _ _ hall hpoll
  | lowering => exact .lowering _ _ _
  | leaving => exact .leaving _ _ _
  | seated _ hk => exact .seated hk

end Spot

namespace Sighting

variable {H : Type} [Host H] {R : Rules} {D : Discipline R} {a b : Sighting H} {k : Label}
  {rs : Registers}

/-- From a state to the next the thread leaves its wait: it asks, and the time has passed. -/
inductive Elapses (k : Label) (rs : Registers) (a b : Sighting H) : Prop
  | mk {t : Thread} {l : Label} {s : Stmt} {after : List Stmt}
      (hpoll : Script.WaitPoll k (s :: after)) (ha : a.spot = .work t l (s :: after))
      (hb : b.spot = .work t l after) (hrs : t.registers = rs.set .first 0.0)
      (hover : rs.waiting a.world.machine.clock.read.1 = false)

/-- In a wait the thread asks: it goes on waiting if the time has not passed or no turn has, and
    leaves the wait if not. -/
theorem asking_step (ha : a.world.Sound D) {t : Thread} {l : Label} {s : Stmt} {after : List Stmt}
    (hspot : a.spot = .work t l (s :: after)) (hpoll : Script.WaitPoll k (s :: after))
    (h : Step R a b) :
    if t.registers.waiting a.world.machine.clock.read.1 || (Value.number t.registers.first).toBool
    then ∃ behind,
      b.spot = .work t l (.setRegister .first Compile.zero :: .forceQueue k :: behind)
    else b.spot = .work t l after := by
  cases hpoll with
  | mk behind =>
    obtain ⟨u, u', code, length, seats, hworld, rfl, hexec, -, hspot'⟩ :=
      onward_step ha hspot rfl h
    rw [Act.exec_wait] at hexec
    cases hexec
    rw [hspot', hworld]
    show if u.thread.registers.waiting u.machine.clock.read.1 ||
      (Value.number u.thread.registers.first).toBool then _ else _
    split
    · exact ⟨behind ++ after, rfl⟩
    · rfl

/-- **A thread in a wait waits on, or the time has passed** and a new pass has begun. -/
theorem counting_step {renewed : Prop} (ha : a.world.Sound D) (horderly : a.world.Orderly)
    (hcounting : a.spot.Counting k rs a.HasGone renewed)
    (hfound : ∀ code, R.finds a.program k code → Script.WaitPoll k code) (h : Step R a b) :
    b.spot.Counting k rs b.HasGone (renewed ∨ World.BeginsPass a.world b.world) ∨
      (Elapses k rs a b ∧ renewed) := by
  have hraised : (Value.number 1.0).toBool = true := by decide +kernel
  have hlowered : (Value.number 0.0).toBool = false := by decide +kernel
  have hzero : (Value.number 0.0).toNumber = 0.0 := by decide +kernel
  generalize hx : a.spot = x at hcounting
  cases hcounting with
  | @fresh t l after hrs hpoll =>
    refine .inl ?_
    obtain ⟨s, after, rfl⟩ : ∃ s rest, after = s :: rest := by
      cases hpoll
      exact ⟨_, _, rfl⟩
    have hfirst : t.registers.first = 1.0 := by
      rw [hrs]
      rfl
    have hasks := asking_step ha hx hpoll h
    rw [hfirst, hraised, Bool.or_true, if_pos rfl] at hasks
    obtain ⟨behind, hb⟩ := hasks
    rw [hb]
    exact .lowering hrs
  | @asking t l after hrs hpoll hturn =>
    obtain ⟨s, after, rfl⟩ : ∃ s rest, after = s :: rest := by
      cases hpoll
      exact ⟨_, _, rfl⟩
    have hfirst : t.registers.first = 0.0 := by
      rw [hrs]
      rfl
    have hwaiting (now : Float) : t.registers.waiting now = rs.waiting now := by
      rw [hrs]
      rfl
    have hasks := asking_step ha hx hpoll h
    rw [hfirst, hlowered, Bool.or_false, hwaiting] at hasks
    split at hasks
    · obtain ⟨behind, hb⟩ := hasks
      rw [hb]
      exact .inl (.lowering hrs)
    · rename_i hover
      exact .inr ⟨.mk hpoll hx hasks hrs (Bool.eq_false_iff.mpr hover), hturn⟩
  | @lowering t l x behind hrs =>
    refine .inl ?_
    obtain ⟨u, u', code, length, seats, -, rfl, hexec, -, hb⟩ := onward_step ha hx rfl h
    obtain ⟨y, u₁, hy, hcode, hregisters⟩ := Act.exec_setRegister hexec
    cases hcode
    cases hy
    rw [hb]
    refine .leaving ?_
    rw [hregisters, hrs, hzero]
    rfl
  | leaving hrs =>
    have hb := forceQueue_step ha hx h
    have hgone : b.HasGone := hasGone_of_seat ha horderly hx hb h
    rw [hb]
    exact .inl (.seated hrs rfl (.inl hgone))
  | @seated t hrs hk hturn =>
    refine .inl ?_
    have hlater : b.HasGone ∨ renewed ∨ World.BeginsPass a.world b.world := by
      rcases hturn with hgone | hturn
      · exact (hasGone_step ha hgone h).imp_right .inr
      · exact .inr (.inl hturn)
    obtain ⟨-, -, hmoves⟩ := h.spot ha
    rw [hx] at hmoves
    generalize hz : b.spot = z at hmoves
    cases hmoves with
    | stay _ ready => exact .seated hrs hk hlater
    | enter hc =>
      refine .asking hrs (hfound _ (hk ▸ hc)) (hlater.resolve_left ?_)
      rintro ⟨t', hseat, -⟩
      rw [hz] at hseat
      cases hseat

/-! ## 3. Every wait -/

/-- Between the two states a pass begins. -/
def Renewed (R : Rules) (a b : Sighting H) : Prop :=
  ∃ x y, Run R a x ∧ Step R x y ∧ World.BeginsPass x.world y.world ∧ Run R y b

/-- What holds of a wait that began in a state, when the thread leaves it in a step from one state
    to another. -/
structure Outlasts (R : Rules) (duration : Expr) (k : Label) (a x y : Sighting H) : Prop where
  /-- The thread asks whether the time has passed, and goes on behind the wait. -/
  asks : ∃ t l s after, Script.WaitPoll k (s :: after) ∧ x.spot = .work t l (s :: after) ∧
    y.spot = .work t l after
  began : x.registers.start = Value.orZero a.world.machine.clock.read.1
  /-- The wait lasts as long as the expression said when the thread came to it. -/
  lasting : Valued R duration x.registers.duration a x
  elapsed : ¬ Value.orZero x.world.machine.clock.read.1 - x.registers.start <
    x.registers.duration
  /-- The thread asks in a later pass. -/
  renewed : Renewed R a x
  /-- A fixed clock that stays the same has moved since, so it is in a later frame. -/
  later : ¬ R.clocks → ∀ now step, a.world.machine.clock = .fixed now step →
    now.isFinite = true → 0.0 < x.registers.duration →
    a.world.machine.frame < x.world.machine.frame

/-- What a thread has noted when it begins to wait. -/
theorem noted_wait {duration : Expr} {after : List Stmt}
    (h : Notes R after (Compile.waitNotes duration) a b) :
    b.registers = b.registers.set .first 1.0 ∧
      b.registers.start = Value.orZero a.world.machine.clock.read.1 ∧
      Valued R duration b.registers.duration a b := by
  have hone : Value.orZero 1.0 = 1.0 := by decide +kernel
  have hnodup : ((Compile.waitNotes duration).map Prod.fst).Nodup := by
    show [Register.start, .duration, .first].Nodup
    decide
  have hstart := h.value?_start (List.nodup_cons.mp hnodup).1
  obtain ⟨c, -, -, -, hfirst⟩ := h.valued hnodup (r := .first) (.tail _ (.tail _ (.head _)))
  have hraised : b.registers.first = 1.0 := (World.eq_of_value?_number hfirst).trans hone
  refine ⟨?_, World.eq_of_value?_now hstart, h.valued hnodup (r := .duration) (.tail _ (.head _))⟩
  rw [← hraised]
  rfl

/-- A thread that began a wait in a state is in it still. -/
structure Counts (R : Rules) (k : Label) (rs : Registers) (a x : Sighting H) : Prop where
  sound : x.world.Sound (Discipline.none R)
  orderly : x.world.Orderly
  program : x.program = a.program
  run : Run R a x
  phase : x.spot.Counting k rs x.HasGone (Renewed R a x)

theorem Counts.step {x y : Sighting H} (h : Counts R k rs a x)
    (hfound : ∀ code, R.finds a.program k code → Script.WaitPoll k code)
    (hxy : Step R x y) : Counts R k rs a y ∨ (Elapses k rs x y ∧ Renewed R a x) := by
  obtain ⟨hsound, hprogram, -⟩ := hxy.spot h.sound
  have hstep := counting_step h.sound h.orderly h.phase (h.program ▸ hfound) hxy
  refine hstep.imp_left fun hphase => ?_
  refine ⟨hsound, hxy.1.orderly h.orderly, hprogram.trans h.program, h.run.tail hxy,
    hphase.mono ?_⟩
  rintro (⟨u, v, hau, huv, hbegins, hvx⟩ | hbegins)
  · exact ⟨u, v, hau, huv, hbegins, hvx.tail hxy⟩
  · exact ⟨x, y, h.run, hxy, hbegins, .refl⟩

/-- The wait of a thread that leaves it has lasted. -/
theorem Elapses.outlasts {duration : Expr} {x y : Sighting H} (h : Elapses k rs x y)
    (hrun : Run R a x)
    (hstart : rs.start = Value.orZero a.world.machine.clock.read.1)
    (hlasting : Valued R duration rs.duration a x)
    (hrenewed : Renewed R a x) : Outlasts R duration k a x y := by
  cases h with
  | @mk t l s after hpoll hx hy hrs hover =>
    have hthread : x.registers = rs.set .first 0.0 := (registers_eq hx).trans hrs
    have hnumber : Value.orZero rs.start = rs.start := by
      rw [hstart]
      exact Value.orZero_of_isNaN (Value.isNaN_orZero _)
    have hpassed := Registers.not_lt_of_waiting hover
    rw [hnumber] at hpassed
    refine ⟨⟨t, l, s, after, hpoll, hx, hy⟩, ?_, ?_, ?_, hrenewed,
      fun hR now step hclock hfinite => ?_⟩
    · rw [hthread]
      exact hstart
    · rw [hthread]
      exact hlasting
    · rw [hthread]
      exact hpassed
    · rw [hthread]
      show 0.0 < rs.duration → _
      intro hpositive
      obtain ⟨n, hframe, hlater⟩ := (reaches_run hrun).fixed hR hclock
      cases n with
      | succ n =>
        rw [hframe]
        exact Nat.lt_add_of_pos_right (Nat.succ_pos n)
      | zero =>
        -- in the same frame the clock tells the time at which the wait began
        have hnow : Value.orZero now = now :=
          Value.orZero_of_isNaN (Number.isNaN_of_isFinite hfinite)
        have hread : (Clock.fixed now step).read.1 = now := rfl
        rw [hclock, hread, hnow] at hstart
        rw [hlater, Function.iterate_zero_apply, hread, hnow, hstart,
          Number.sub_self hfinite] at hpassed
        exact absurd hpositive hpassed

end Sighting

/-- A thread that has begun a wait is in it until there is a step in which it leaves it. -/
theorem World.Arises.outlasts {H : Type} [Host H] {p : Project} {o : Options} {host : H}
    {s : Surroundings} {m : Machine H} (hload : Player.loadProject p o host s = .ok m)
    {a : Sighting H} (ha : World.Arises m a.world) {t : Thread} {l : Label} {duration : Expr}
    {rest : List Stmt}
    (hspot : a.spot = .work t l (Script.noting (Compile.waitNotes duration) ++ rest)) :
    ∃ k, ∀ R : Rules, R.finds = Rules.cut.finds →
      ∀ b, Sighting.Run R a b → b.spot.Pausing duration k ∨
        ∃ x y, Sighting.Stays R (·.spot.Pausing duration k) a x ∧ Sighting.Step R x y ∧
          Sighting.Outlasts R duration k a x y ∧ Sighting.Run R y b := by
  obtain ⟨k, hpoll, hfound⟩ := ha.exists_poll hload (.wait duration) hspot
  have hsound : a.world.Sound (Discipline.none .cut) :=
    ha.sound (World.sound_load hload fun _ _ => trivial)
  refine ⟨k, fun R hR b hab => ?_⟩
  rw [← hR] at hfound
  have hsound : a.world.Sound (Discipline.none R) := World.sound_none hsound
  have hnoting (t : Thread) (l : Label) (left : List (Register × Expr))
      (hleft : left <:+ Compile.waitNotes duration) :
      Spot.Pausing duration k (.work t l (Script.noting left ++ rest)) := .noting t l hleft hpoll
  rcases Sighting.stays_noting hnoting hsound hspot hab with hb | ⟨c, hnotes, hpausing, hcb⟩
  · exact .inl hb
  obtain ⟨hrs, hstart, hvalued⟩ := Sighting.noted_wait hnotes
  have hcounts : Sighting.Counts R k c.registers a c := by
    obtain ⟨t', l', hc⟩ := hnotes.stop
    obtain ⟨hsound', hprogram⟩ := Sighting.sound_run hsound hpausing.run
    refine ⟨hsound', (Sighting.reaches_run hpausing.run).orderly ha.orderly, hprogram,
      hpausing.run, ?_⟩
    rw [Sighting.registers_eq hc] at hrs ⊢
    rw [hc]
    exact .fresh hrs hpoll
  rcases Sighting.run_until (fun x y hx hxy => hx.step hfound hxy) hcounts hcb with
    ⟨-, hb⟩ | ⟨x, y, hcx, hx, hxy, ⟨helapses, hrenewed⟩, hyb⟩
  · exact .inl (hb.phase.pausing duration)
  · have hin : Sighting.Stays R (·.spot.Pausing duration k) c x :=
      hcx.mono fun _ hz => hz.phase.pausing duration
    exact .inr ⟨x, y, hpausing.trans hin, hxy,
      helapses.outlasts hx.run hstart (hvalued.trans hcx.run) hrenewed, hyb⟩

/-- **Every wait lasts**, whatever the programs are and whatever other threads do.

    Blocks that wait become code that notes when the wait begins and how long it lasts. A thread
    that has begun a wait is in it until there is a step in which it asks, finds that the time has
    passed since it began, and goes on; it has given up its turn before that. With a fixed clock that
    stays the same a wait for more than no time is over only in a later frame than it began. -/
theorem World.wait_lasts {H : Type} [Host H] :
    (∀ (s : Compile.Command) (before : List Stmt) (duration : Expr), s.Waits before duration →
      ∀ n, ∃ rest, Script.WaitPoll n rest ∧ s.compile n = .ok (before ++ .save ::
        (Script.noting (Compile.waitNotes duration) ++ .label n :: rest), n + 1)) ∧
    ∀ (p : Project) (o : Options) (host : H) (s : Surroundings) (m : Machine H),
      Player.loadProject p o host s = .ok m →
      ∀ a : Sighting H, World.Arises m a.world → ∀ t l duration rest,
      a.spot = .work t l (Script.noting (Compile.waitNotes duration) ++ rest) →
      ∃ k, ∀ R : Rules, R.finds = Rules.cut.finds →
        ∀ b, Sighting.Run R a b → b.spot.Pausing duration k ∨
          ∃ x y, Sighting.Stays R (·.spot.Pausing duration k) a x ∧ Sighting.Step R x y ∧
            Sighting.Outlasts R duration k a x y ∧ Sighting.Run R y b := by
  refine ⟨fun s before duration h => h.compile, ?_⟩
  intro p o host s m hload a ha t l duration rest hspot
  exact ha.outlasts hload hspot

/-- A block that waits. -/
def pausingBlock (duration : Float) : Block where
  opcode := "control_wait"
  next := some "s2"
  inputs := .ofEntries [("DURATION", .literal (.number duration))]

/-- A sprite that waits and then speaks, and calls somebody meanwhile. -/
def pausing (duration : Float) : TargetData where
  name := "Pausing"
  blocks := .ofEntries [
    ("s0", .block { opcode := "event_whenflagclicked", next := some "s1", topLevel := true }),
    ("s1", .block (pausingBlock duration)),
    ("s2", .block {
      opcode := "looks_say"
      inputs := .ofEntries [("MESSAGE", .literal (.text "done"))] }),
    ("s3", .block { opcode := "event_whenflagclicked", next := some "s4", topLevel := true }),
    ("s4", .block {
      opcode := "event_broadcast"
      inputs := .ofEntries [("BROADCAST_INPUT", .broadcast "go")] }),
    ("s5", .block {
      opcode := "event_whenbroadcastreceived", topLevel := true
      fields := .ofEntries [("BROADCAST_OPTION", ⟨"go", none⟩)] })]

/-- The sprite on a stage. -/
def pausingProject (duration : Float) : Project :=
  ⟨[{ isStage := true, name := "Stage" }, pausing duration]⟩

/-- A thread behind its wait is not in it. -/
theorem Spot.not_pausing_of_isRestoring {x : Spot} {duration : Expr} {k : Label}
    (h : x.isRestoring = true) : ¬ x.Pausing duration k := by
  intro hpausing
  cases hpausing with
  | @noting t l left after _ hpoll =>
    cases left with
    | nil =>
      cases hpoll
      cases h
    | cons => cases h
  | lowering | leaving | seated => cases h

/-- The sprite waits for a second, and is behind its wait one frame later. -/
theorem World.pausing_wait :
    (∃ rest, Script.WaitPoll 0 rest ∧
      (Compile.commandAt (.of (pausing 1.0) none []) 0 [] (pausingBlock 1.0)).compile 0 =
        .ok (.save :: (Script.noting (Compile.waitNotes (.number 1.0)) ++ .label 0 :: rest), 1)) ∧
    ∃ m : Machine Headless, ∃ a b : Sighting Headless, ∃ t l duration rest k,
      Player.loadProject (pausingProject 1.0) {} {} .still = .ok m ∧
      World.Arises m a.world ∧
      a.spot = .work t l (Script.noting (Compile.waitNotes duration) ++ rest) ∧
      a.world.machine.frame = 0 ∧ b.world.machine.frame = 1 ∧
      ∃ x y, Sighting.Stays .steady (·.spot.Pausing duration k) a x ∧
        Sighting.Step .steady x y ∧ Sighting.Outlasts .steady duration k a x y ∧
        Sighting.Run .steady y b := by
  obtain ⟨hblocks, hruns⟩ := World.wait_lasts (H := Headless)
  refine ⟨hblocks _ [] _ (.pause rfl rfl) 0, ?_⟩
  have hrun : ((Player.loadProject (pausingProject 1.0) {} ({} : Headless)
      .still).toOption.bind fun m => (m.setClock (.fixed 0.0 1.0)).firstTimed? .steady).map
        (fun s => (s.1.spot.notesThird .first, s.1.world.machine.frame, s.2.world.machine.frame)) =
        some (true, 0, 1) := by
    decide +kernel
  obtain ⟨⟨a, b⟩, hwait, hstates⟩ := Option.map_eq_some_iff.mp hrun
  obtain ⟨m, hm, hwait⟩ := Option.bind_eq_some_iff.mp hwait
  have hopens : a.spot.notesThird .first = true := congrArg (·.1) hstates
  have hstart : a.world.machine.frame = 0 := congrArg (·.2.1) hstates
  have hend : b.world.machine.frame = 1 := congrArg (·.2.2) hstates
  have hload := eq_ok_of_toOption hm
  obtain ⟨hreaches, ⟨t, l, s, code, hspot, hs⟩, hab, hrestoring⟩ := Machine.firstTimed?_spec hwait
  have ha : World.Arises m a.world := .head (.setClock trivial m _) hreaches
  obtain ⟨notes, poll, k, rest, htimed, heq, -, -⟩ := ha.exists_timed hload hspot hs
  rw [heq] at hspot
  rw [hspot] at hopens
  cases htimed with
  | glide => cases hopens
  | wait duration =>
    obtain ⟨k, hpasses⟩ := hruns _ _ _ _ m hload a ha t l duration rest hspot
    have hover := (hpasses .steady rfl b hab).resolve_left
      (Spot.not_pausing_of_isRestoring hrestoring)
    exact ⟨m, a, b, t, l, duration, rest, k, hload, ha, hspot, hstart, hend, hover⟩

/-- What a frame comes to: its number, and what has been said. -/
def Machine.afterFrame? (m : Machine Headless) : Option (Nat × Array (String × String)) :=
  EStateM.run' (do
    Machine.step Player.turnSteps
    return ((← get).frame, (← get).host.speech)) m

/-- A wait for no time can be over in the frame in which it began: the call of another thread makes
    the frame repeat its pass, and the sprite speaks in the second one. -/
theorem World.wait_in_one_frame :
    ∃ m : Machine Headless,
      Player.loadProject (pausingProject 0.0) {} {} .still = .ok m ∧ m.frame = 0 ∧
      (m.setClock (.fixed 0.0 1.0)).greenFlag.2.afterFrame? = some (1, #[("Pausing", "done")]) := by
  have hrun : ((Player.loadProject (pausingProject 0.0) {} ({} : Headless)
      .still).toOption.map fun m =>
        (m.frame, (m.setClock (.fixed 0.0 1.0)).greenFlag.2.afterFrame?)) =
        some (0, some (1, #[("Pausing", "done")])) := by
    decide +kernel
  obtain ⟨m, hm, hstates⟩ := Option.map_eq_some_iff.mp hrun
  exact ⟨m, eq_ok_of_toOption hm, congrArg (·.1) hstates, congrArg (·.2) hstates⟩

end BlockScript
