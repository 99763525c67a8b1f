import BlockScript.Proofs.Pacing

/-!
# Glides

A thread that glides moves its sprite in every turn, to where it should be by then, and then asks
whether to go on. It asks the clock both times. With a fixed clock the two answers are the same, so
the sprite is where it has to go when the thread leaves the glide. With a wall clock time may pass
between them: then the sprite is left on its way.

* `Compile.Command.Glides.compile`: what blocks that glide become;
* `Act.exec_glideStep`: a glide step moves the sprite, and nothing else;
* `Sighting.Underway`: what holds in each phase of a glide;
* `Sighting.Underway.step`: the thread glides on, or leaves the glide because the time has passed;
* `World.glide_arrives`: what holds of every glide.
-/

namespace BlockScript

open Compile (stillWaiting)

/-! ## 1. Blocks that glide -/

namespace Compile.Command

/-- The block glides: how long, and where to. -/
inductive Glides (s : Command) : Expr → Expr → Expr → Prop
  | place {secs x y : Expr} (hopcode : s.block.opcode = "motion_glidesecstoxy")
      (hsecs : s.number "SECS" = .ok secs) (hx : s.number "X" = .ok x)
      (hy : s.number "Y" = .ok y) : Glides s secs x y
  | target {secs name : Expr} (hopcode : s.block.opcode = "motion_glideto")
      (hsecs : s.number "SECS" = .ok secs) (hname : s.text "TO" = .ok name) :
      Glides s secs (.attribute "x position" name) (.attribute "y position" name)

/-- **What a block that glides becomes**: it notes when the glide begins, how long it lasts and
    where it goes, and comes to the label of the glide. -/
theorem Glides.compile {s : Command} {secs x y : Expr} (h : s.Glides secs x y) (n : Label) :
    ∃ rest, Script.GlidePoll n rest ∧ s.compile n = .ok (.save ::
      (Script.noting (glideNotes secs x y) ++ .label n :: rest), n + 1) := by
  refine ⟨_, .mk [] [.restore], ?_⟩
  unfold Command.compile
  cases h with
  | place hopcode hsecs hx hy =>
    have hcode : s.compile? = some (do
        let secs ← s.number "SECS"
        let x ← s.number "X"
        let y ← s.number "Y"
        return glide (← freshLabel) secs x y) := by
      unfold compile?
      rw [hopcode]
      rfl
    rw [hcode, Option.getD_some, hsecs, hx, hy]
    rfl
  | target hopcode hsecs hname =>
    have hcode : s.compile? = some (do
        let secs ← s.number "SECS"
        let target ← s.text "TO"
        return glide (← freshLabel) secs (.attribute "x position" target)
          (.attribute "y position" target)) := by
      unfold compile?
      rw [hopcode]
      rfl
    rw [hcode, Option.getD_some, hsecs, hname]
    rfl

end Compile.Command

/-! ## 2. One step of a glide -/

theorem Target.sprite?_mapSprite (t : Target) (f : Sprite → Sprite) :
    (t.mapSprite f).sprite? = t.sprite?.map f := by
  cases h : t.body <;> simp [mapSprite, sprite?, withSprite, h]

/-- A glide is at its end once the time is over. -/
theorem Act.glidePlace_of_le {rs : Registers} {now : Float}
    (h : rs.duration ≤ 0.0 ∨ rs.duration ≤ now - rs.start) :
    glidePlace rs now = ⟨rs.toX, rs.toY⟩ := by
  unfold glidePlace
  dsimp only
  rw [if_pos]
  simpa using h

namespace Act

variable {H : Type}

/-- The thread and the targets are as before. -/
def SameScene (t t' : Turn H) : Prop :=
  t'.thread = t.thread ∧ t'.machine.targets = t.machine.targets

theorem SameScene.trans (a b c : Turn H) (h : SameScene a b) (h' : SameScene b c) :
    SameScene a c :=
  ⟨h'.1.trans h.1, h'.2.trans h.2⟩

theorem sameScene_current : Keeps SameScene (current (H := H)) := by
  intro t
  rw [after_current]
  exact ⟨rfl, rfl⟩

theorem sameScene_drawTrail [Host H] (start : Point) :
    Keeps SameScene (drawTrail (H := H) start) := by
  refine .bind .trans sameScene_current fun target => ?_
  split
  · exact fun _ => ⟨rfl, rfl⟩
  · split
    · exact fun _ => ⟨rfl, rfl⟩
    · exact fun _ => ⟨rfl, rfl⟩

theorem sameScene_touchTarget : Keeps SameScene (touchTarget (H := H)) := by
  refine .bind .trans sameScene_current fun target => ?_
  split
  · exact fun _ => ⟨rfl, rfl⟩
  · exact fun _ => ⟨rfl, rfl⟩

/-- To change the sprite of the thread is to change that and nothing else. -/
theorem modifySprite_apply {t : Turn H} {target : Target} {s : Sprite}
    (htarget : t.machine.target? t.thread.target = some target) (hs : target.sprite? = some s)
    (f : Sprite → Sprite) :
    modifySprite f t =
      .ok () { t with machine := t.machine.mapTarget target.id fun x => x.mapSprite f } := by
  unfold modifySprite
  rw [bind_apply, sprite_apply, htarget]
  simp only [hs]
  rw [modifyCurrent_apply, htarget]

variable [Host H]

/-- **A glide step moves the sprite to where the glide is by now**, and leaves the thread alone. -/
theorem exec_glideStep {t t' : Turn H} {c : Control} {target : Target}
    (htarget : t.machine.target? t.thread.target = some target) (hid : target.id = t.thread.target)
    (h : exec (.motion .glideStep) t = .ok c t') :
    c = .onward [] ∧ t'.thread = t.thread ∧
      (t'.machine.target? t.thread.target).bind Target.sprite? = target.sprite?.map
        fun s => s.moveTo (glidePlace t.thread.registers t.machine.clock.read.1) := by
  obtain ⟨_, t₁, hmotion, h⟩ := bind_eq_ok.mp h
  cases h
  refine ⟨rfl, ?_⟩
  unfold execMotion at hmotion
  rw [bind_apply, current_apply, htarget] at hmotion
  dsimp only at hmotion
  cases hs : target.sprite? with
  | none =>
    -- the stage stays where it is, and does not ask the clock
    rw [hs] at hmotion
    cases hmotion
    rw [htarget]
    exact ⟨rfl, hs⟩
  | some s =>
    rw [hs] at hmotion
    have hplace : destination s .glideStep t = .ok
        (some (glidePlace t.thread.registers t.machine.clock.read.1))
        { t with machine := t.machine.now.2 } := rfl
    obtain ⟨p, t₂, hp, hmotion⟩ := bind_eq_ok.mp hmotion
    rw [hplace] at hp
    cases hp
    obtain ⟨_, t₃, hmove, hmotion⟩ := bind_eq_ok.mp hmotion
    obtain ⟨_, t₄, htrail, htouch⟩ := bind_eq_ok.mp hmotion
    have htarget' : t.machine.now.2.target? t.thread.target = some target := htarget
    rw [modifySprite_apply (t := { t with machine := t.machine.now.2 }) htarget' hs] at hmove
    cases hmove
    obtain ⟨hthread, htargets⟩ := ((sameScene_drawTrail _).of_ok htrail).trans _ _ _
      (sameScene_touchTarget.of_ok htouch)
    have hafter (id : TargetId) : t'.machine.target? id = (t.machine.now.2.mapTarget target.id
        fun x => x.mapSprite fun s =>
          s.moveTo (glidePlace t.thread.registers t.machine.clock.read.1)).target? id := by
      unfold Machine.target?
      rw [htargets]
    refine ⟨hthread, ?_⟩
    rw [hafter, Machine.target?_mapTarget, if_pos hid, htarget', Option.map_some, Option.bind_some,
      Target.sprite?_mapSprite, hs]

end Act

namespace Sighting

variable {H : Type} {a b : Sighting H} {k : Label}

/-- The sprite of the thread, if its target is one. -/
def sprite? (a : Sighting H) : Option Sprite :=
  (a.world.machine.target? a.spot.thread.target).bind Target.sprite?

variable [Host H] {D : Discipline .cut}

/-- In a glide the thread moves its sprite. -/
theorem moving_step (ha : a.world.Sound D) {t : Thread} {l : Label} {rest : List Stmt}
    (hspot : a.spot = .work t l (.motion .glideStep :: rest)) (h : Step .cut a b) :
    b.spot = .work t l rest ∧ a.world.machine.SameTime b.world.machine ∧
      b.sprite? = a.sprite?.map fun s =>
        s.moveTo (Act.glidePlace t.registers a.world.machine.clock.read.1) := by
  obtain ⟨u, u', code, length, seats, hworld, rfl, hexec, hworld', hspot'⟩ :=
    onward_step ha hspot rfl h
  rw [hworld] at ha
  obtain ⟨⟨hm, -⟩, ⟨hseated, -⟩, -⟩ := ha
  obtain ⟨target, htarget, -⟩ := hseated.target
  obtain ⟨hcode, hthread, hsprite⟩ := Act.exec_glideStep htarget (hm.id _ _ htarget) hexec
  cases hcode
  refine ⟨hthread ▸ hspot', ?_, ?_⟩
  · rw [hworld, hworld']
    exact (Act.exec_sameTime _).of_ok hexec
  · unfold sprite?
    rw [hworld, hworld', hspot, hspot']
    show (u'.machine.target? u'.thread.target).bind Target.sprite? = _
    rw [hthread, hsprite]
    show _ = ((u.machine.target? u.thread.target).bind Target.sprite?).map _
    rw [htarget]
    rfl

/-- Then it asks: it glides on if the time has not passed, and leaves the glide if it has. -/
theorem testing_step (ha : a.world.Sound D) {t : Thread} {l : Label} {behind after : List Stmt}
    (hspot : a.spot = .work t l (.branch stillWaiting (.forceQueue k :: behind) [] :: after))
    (h : Step .cut a b) :
    b.sprite? = a.sprite? ∧ if t.registers.waiting a.world.machine.clock.read.1 then
      b.spot = .work t l (.forceQueue k :: (behind ++ after)) else b.spot = .work t l after := by
  obtain ⟨u, u', code, length, seats, hworld, rfl, hexec, hworld', hspot'⟩ :=
    onward_step ha hspot rfl h
  rw [Act.exec_branch, Act.evalBool_stillWaiting] at hexec
  cases hexec
  refine ⟨?_, ?_⟩
  · unfold sprite?
    rw [hworld, hworld', hspot, hspot']
    rfl
  · rw [hspot', hworld]
    show if u.thread.registers.waiting u.machine.clock.read.1 then _ else _
    split
    · rfl
    · rfl

end Sighting

/-! ## 3. In a glide -/

/-- The thread is in the glide at the label: it notes what it has to note or moves its sprite, asks
    whether the time has passed, leaves its turn because it has not, or waits for its next turn. -/
inductive Spot.Gliding (secs toX toY : Expr) (k : Label) : Spot → Prop
  | noting (t : Thread) (l : Label) {left : List (Register × Expr)} {after : List Stmt}
      (h : left <:+ Compile.glideNotes secs toX toY) (hpoll : Script.GlidePoll k after) :
      Gliding secs toX toY k (.work t l (Script.noting left ++ after))
  | testing (t : Thread) (l : Label) (behind after : List Stmt) :
      Gliding secs toX toY k
        (.work t l (.branch stillWaiting (.forceQueue k :: behind) [] :: after))
  | leaving (t : Thread) (l : Label) (behind : List Stmt) :
      Gliding secs toX toY k (.work t l (.forceQueue k :: behind))
  | seated {t : Thread} (hk : t.continuation = k) : Gliding secs toX toY k (.seat t)

namespace Sighting

variable {H : Type} [Host H] {D : Discipline .cut} {a v x y : Sighting H} {k : Label}
  {rs : Registers} {reached : Sighting H → Prop}

/-- From one state to the next the thread moves its sprite as the registers say, and is about to
    ask whether the time has passed. -/
inductive Moved (k : Label) (rs : Registers) (v x : Sighting H) : Prop
  | mk {t : Thread} {l : Label} {behind after : List Stmt} (hrs : t.registers = rs)
      (hv : v.spot = .work t l
        (.motion .glideStep :: .branch stillWaiting (.forceQueue k :: behind) [] :: after))
      (hx : x.spot = .work t l (.branch stillWaiting (.forceQueue k :: behind) [] :: after))
      (hstep : Step .cut v x) (htime : v.world.machine.SameTime x.world.machine)
      (hsprite : x.sprite? =
        v.sprite?.map fun s => s.moveTo (Act.glidePlace rs v.world.machine.clock.read.1))

/-- Once the thread has noted everything: which phase of the glide it is in. It changes no register
    any more. When it is about to ask, it has just moved its sprite, in a state that was reached. -/
inductive Underway (k : Label) (rs : Registers) (reached : Sighting H → Prop) :
    Sighting H → Prop
  | moving {x : Sighting H} {t : Thread} {l : Label} {after : List Stmt}
      (hx : x.spot = .work t l after) (hrs : t.registers = rs) (hpoll : Script.GlidePoll k after) :
      Underway k rs reached x
  | testing {v x : Sighting H} (hv : reached v) (h : Moved k rs v x) : Underway k rs reached x
  | leaving {x : Sighting H} {t : Thread} {l : Label} {behind : List Stmt}
      (hx : x.spot = .work t l (.forceQueue k :: behind)) (hrs : t.registers = rs) :
      Underway k rs reached x
  | seated {x : Sighting H} {t : Thread} (hx : x.spot = .seat t) (hrs : t.registers = rs)
      (hk : t.continuation = k) : Underway k rs reached x

theorem Underway.gliding (h : Underway k rs reached x) (secs toX toY : Expr) :
    x.spot.Gliding secs toX toY k := by
  have hall : [] <:+ Compile.glideNotes secs toX toY := List.nil_suffix
  cases h with
  | moving hx _ hpoll =>
    rw [hx]
    exact .noting _ _ hall hpoll
  | testing _ h =>
    cases h with
    | mk _ _ hx =>
      rw [hx]
      exact .testing _ _ _ _
  | leaving hx =>
    rw [hx]
    exact .leaving _ _ _
  | seated hx _ hk =>
    rw [hx]
    exact .seated hk

/-- The thread has moved its sprite, finds that the time has passed, and goes on behind the
    glide. -/
structure Ends (k : Label) (rs : Registers) (v x y : Sighting H) : Prop where
  moved : Moved k rs v x
  passed : rs.waiting x.world.machine.clock.read.1 = false
  behind : ∃ t l s after, x.spot = .work t l (s :: after) ∧ y.spot = .work t l after
  sprite : y.sprite? = x.sprite?

/-- **A thread in a glide glides on, or the time has passed.** -/
theorem Underway.step (h : Underway k rs reached x) (hx : x.world.Sound D) (hreached : reached x)
    (hfound : ∀ code, Rules.cut.finds x.program k code → Script.GlidePoll k code)
    (hxy : Step .cut x y) : Underway k rs reached y ∨ ∃ v, reached v ∧ Ends k rs v x y := by
  cases h with
  | moving hspot hrs hpoll =>
    cases hpoll with
    | mk behind after =>
      obtain ⟨hy, htime, hsprite⟩ := moving_step hx hspot hxy
      exact .inl (.testing hreached (.mk hrs hspot hy hxy htime (hrs ▸ hsprite)))
  | @testing v _ hv' hmoved =>
    cases hmoved with
    | @mk t l behind after hrs hv hspot hstep htime hsprite =>
      obtain ⟨hsame, htest⟩ := testing_step hx hspot hxy
      rw [hrs] at htest
      split at htest
      · exact .inl (.leaving htest hrs)
      · rename_i hover
        exact .inr ⟨v, hv', .mk hrs hv hspot hstep htime hsprite, Bool.eq_false_iff.mpr hover,
          ⟨t, l, _, after, hspot, htest⟩, hsame⟩
  | leaving hspot hrs =>
    exact .inl (.seated (forceQueue_step hx hspot hxy) hrs rfl)
  | seated hspot hrs hk =>
    refine .inl ?_
    obtain ⟨-, -, hmoves⟩ := hxy.spot hx
    rw [hspot] at hmoves
    generalize hz : y.spot = z at hmoves
    cases hmoves with
    | stay _ ready => exact .seated hz hrs hk
    | enter hc => exact .moving hz hrs (hfound _ (hk ▸ hc))

/-! ## 4. Every glide -/

/-- What holds of a glide that began in a state, when the thread moves its sprite for the last time
    in a step from `v` to `x`, and leaves the glide in a step from `x` to `y`. -/
structure Arrives (secs toX toY : Expr) (k : Label) (a v x y : Sighting H) : Prop where
  leaves : ∃ t l behind after,
    v.spot = .work t l
      (.motion .glideStep :: .branch stillWaiting (.forceQueue k :: behind) [] :: after) ∧
    x.spot = .work t l (.branch stillWaiting (.forceQueue k :: behind) [] :: after) ∧
    y.spot = .work t l after
  began : v.registers.start = Value.orZero a.world.machine.clock.read.1
  /-- The glide lasts as long, and goes where, the expressions said when the thread came to it. -/
  lasting : Valued .cut secs v.registers.duration a v
  aimed : Valued .cut toX v.registers.toX a v ∧ Valued .cut toY v.registers.toY a v
  elapsed : ¬ Value.orZero x.world.machine.clock.read.1 - v.registers.start < v.registers.duration
  /-- The sprite is where the glide was when the thread moved it. -/
  moved : y.sprite? = v.sprite?.map fun s =>
    s.moveTo (Act.glidePlace v.registers v.world.machine.clock.read.1)
  /-- If the time had passed by then, that is where it had to go. -/
  arrived : v.registers.duration ≤ 0.0 ∨
      v.registers.duration ≤ v.world.machine.clock.read.1 - v.registers.start →
    y.sprite? = v.sprite?.map fun s => s.moveTo ⟨v.registers.toX, v.registers.toY⟩
  /-- With a fixed clock it had, as far as numbers can tell. -/
  fixed : ∀ now step, v.world.machine.clock = .fixed now step →
    (now - v.registers.start).isNaN = false →
    y.sprite? = v.sprite?.map fun s => s.moveTo ⟨v.registers.toX, v.registers.toY⟩

/-- What a thread has noted when it begins to glide. -/
theorem noted_glide {R : Rules} {secs toX toY : Expr} {after : List Stmt}
    (h : Notes R after (Compile.glideNotes secs toX toY) a x) :
    x.registers.start = Value.orZero a.world.machine.clock.read.1 ∧
      Valued R secs x.registers.duration a x ∧ Valued R toX x.registers.toX a x ∧
      Valued R toY x.registers.toY a x := by
  have hnodup : ((Compile.glideNotes secs toX toY).map Prod.fst).Nodup := by
    show [Register.start, .duration, .fromX, .fromY, .toX, .toY].Nodup
    decide
  have hstart := h.value?_start (List.nodup_cons.mp hnodup).1
  have hvalued {r : Register} {e : Expr} (hmem : (r, e) ∈ Compile.glideNotes secs toX toY) :=
    h.valued hnodup hmem
  exact ⟨World.eq_of_value?_now hstart, hvalued (r := .duration) (by simp [Compile.glideNotes]),
    hvalued (r := .toX) (by simp [Compile.glideNotes]),
    hvalued (r := .toY) (by simp [Compile.glideNotes])⟩

/-- Once a fixed clock says that the time has passed, it says so to a glide step too. -/
theorem duration_le_of_waiting {now : Float} (hduration : rs.duration.isNaN = false)
    (hnumber : (now - rs.start).isNaN = false) (h : rs.waiting now = false) :
    rs.duration ≤ now - rs.start := by
  obtain ⟨hnow, hstart⟩ := Number.isNaN_of_sub hnumber
  have hpassed := Registers.not_lt_of_waiting h
  rw [Value.orZero_of_isNaN hnow, Value.orZero_of_isNaN hstart] at hpassed
  exact (Number.le_iff_not_lt hnumber hduration).mpr hpassed

/-- The sprite of a thread that leaves a glide has arrived. -/
theorem Ends.arrives {secs toX toY : Expr} (h : Ends k rs v x y)
    (hstart : rs.start = Value.orZero a.world.machine.clock.read.1)
    (hlasting : Valued .cut secs rs.duration a v) (htoX : Valued .cut toX rs.toX a v)
    (htoY : Valued .cut toY rs.toY a v) : Arrives secs toX toY k a v x y := by
  obtain ⟨hmoved, hpassed, ⟨_, _, _, _, hx', hy⟩, hsame⟩ := h
  cases hmoved with
  | @mk _ _ behind _ hrs hv hx _ htime hsprite =>
    rw [hx] at hx'
    cases hx'
    have hregisters : v.registers = rs := (registers_eq hv).trans hrs
    have hnumber : Value.orZero rs.start = rs.start := by
      rw [hstart]
      exact Value.orZero_of_isNaN (Value.isNaN_orZero _)
    have hmoved : y.sprite? = v.sprite?.map fun s =>
        s.moveTo (Act.glidePlace rs v.world.machine.clock.read.1) := hsame.trans hsprite
    have harrived (h : rs.duration ≤ 0.0 ∨
        rs.duration ≤ v.world.machine.clock.read.1 - rs.start) :
        y.sprite? = v.sprite?.map fun s => s.moveTo ⟨rs.toX, rs.toY⟩ := by
      rw [hmoved, Act.glidePlace_of_le h]
    subst hregisters
    refine ⟨⟨_, _, behind, _, hv, hx, hy⟩, hstart, hlasting, ⟨htoX, htoY⟩, ?_, hmoved, harrived,
      fun now step hclock hdiff => harrived (.inr ?_)⟩
    · have hnot := Registers.not_lt_of_waiting hpassed
      rw [hnumber] at hnot
      exact hnot
    · -- a fixed clock does not move between the glide step and the question
      obtain ⟨c, -, -, -, hvalue⟩ := hlasting
      have hfixed : x.world.machine.clock = .fixed now step := (hclock ▸ htime.clock).eq_fixed
      rw [hfixed] at hpassed
      rw [hclock]
      exact duration_le_of_waiting (World.isNaN_of_value? hvalue) hdiff hpassed

/-- The thread is in a glide, in one of the states that are reached from its beginning. -/
structure Glides (k : Label) (rs : Registers) (secs toX toY : Expr) (a x : Sighting H) : Prop where
  sound : x.world.Sound (Discipline.none .cut)
  program : x.program = a.program
  stays : Stays .cut (·.spot.Gliding secs toX toY k) a x
  phase : Underway k rs (Stays .cut (·.spot.Gliding secs toX toY k) a) x

theorem Glides.step {secs toX toY : Expr} (h : Glides k rs secs toX toY a x)
    (hfound : ∀ code, Rules.cut.finds a.program k code → Script.GlidePoll k code)
    (hxy : Step .cut x y) : Glides k rs secs toX toY a y ∨
      ∃ v, Stays .cut (·.spot.Gliding secs toX toY k) a v ∧ Ends k rs v x y := by
  obtain ⟨hsound, hprogram, -⟩ := hxy.spot h.sound
  have hstep := h.phase.step h.sound h.stays (h.program ▸ hfound) hxy
  exact hstep.imp_left fun hphase => ⟨hsound, hprogram.trans h.program,
    h.stays.tail ⟨hxy, hphase.gliding secs toX toY⟩, hphase⟩

end Sighting

/-- A thread that has begun a glide is in it until it moves its sprite for the last time and leaves
    it. -/
theorem World.Arises.arrives {H : Type} [Host H] {p : Project} {o : Options} {host : H}
    {s : Surroundings} {m : Machine H} (hload : Player.loadProject p o host s = .ok m)
    {a : Sighting H} (ha : World.Arises m a.world) {t : Thread} {l : Label} {secs toX toY : Expr}
    {rest : List Stmt}
    (hspot : a.spot = .work t l (Script.noting (Compile.glideNotes secs toX toY) ++ rest)) :
    ∃ k, ∀ b, Sighting.Run .cut a b → b.spot.Gliding secs toX toY k ∨
      ∃ v x y, Sighting.Stays .cut (·.spot.Gliding secs toX toY k) a v ∧ Sighting.Step .cut v x ∧
        Sighting.Step .cut x y ∧ Sighting.Arrives secs toX toY k a v x y ∧
        Sighting.Run .cut y b := by
  obtain ⟨k, hpoll, hfound⟩ := ha.exists_poll hload (.glide secs toX toY) hspot
  have hsound : a.world.Sound (Discipline.none .cut) :=
    ha.sound (World.sound_load hload fun _ _ => trivial)
  refine ⟨k, fun b hab => ?_⟩
  have hnoting (t : Thread) (l : Label) (left : List (Register × Expr))
      (hleft : left <:+ Compile.glideNotes secs toX toY) :
      Spot.Gliding secs toX toY k (.work t l (Script.noting left ++ rest)) :=
    .noting t l hleft hpoll
  rcases Sighting.stays_noting hnoting hsound hspot hab with hb | ⟨c, hnotes, hgliding, hcb⟩
  · exact .inl hb
  obtain ⟨hstart, hlasting, htoX, htoY⟩ := Sighting.noted_glide hnotes
  obtain ⟨hsound', hprogram⟩ := Sighting.sound_run hsound hgliding.run
  have hglides : Sighting.Glides k c.registers secs toX toY c c := by
    obtain ⟨t', l', hc⟩ := hnotes.stop
    exact ⟨hsound', rfl, .refl, .moving hc (Sighting.registers_eq hc).symm hpoll⟩
  rcases Sighting.run_until (fun x y hx hxy => hx.step (hprogram ▸ hfound) hxy) hglides hcb with
    ⟨-, hb⟩ | ⟨x, y, -, -, hxy, ⟨v, hcv, hends⟩, hyb⟩
  · exact .inl (hb.phase.gliding secs toX toY)
  · have hrun := hcv.run
    obtain ⟨-, -, -, hvx, -, -⟩ := hends.moved
    exact .inr ⟨v, x, y, hgliding.trans hcv, hvx, hxy,
      hends.arrives hstart (hlasting.trans hrun) (htoX.trans hrun) (htoY.trans hrun), hyb⟩

/-- **Every glide that ends, ends where the sprite was moved last**, whatever the programs are and
    whatever other threads do.

    Blocks that glide become code that notes when the glide begins, how long it lasts and where it
    goes. A thread that has begun a glide is in it until it moves its sprite, finds that the time
    has passed, and goes on. If the time had passed when it moved the sprite, the sprite is at the
    place noted in the beginning. That is so with every fixed clock that tells numbers. -/
theorem World.glide_arrives {H : Type} [Host H] :
    (∀ (s : Compile.Command) (secs toX toY : Expr), s.Glides secs toX toY →
      ∀ n, ∃ rest, Script.GlidePoll n rest ∧ s.compile n = .ok (.save ::
        (Script.noting (Compile.glideNotes secs toX toY) ++ .label n :: rest), n + 1)) ∧
    ∀ (p : Project) (o : Options) (host : H) (s : Surroundings) (m : Machine H),
      Player.loadProject p o host s = .ok m →
      ∀ a : Sighting H, World.Arises m a.world → ∀ t l secs toX toY rest,
      a.spot = .work t l (Script.noting (Compile.glideNotes secs toX toY) ++ rest) →
      ∃ k, ∀ b, Sighting.Run .cut a b → b.spot.Gliding secs toX toY k ∨
        ∃ v x y, Sighting.Stays .cut (·.spot.Gliding secs toX toY k) a v ∧ Sighting.Step .cut v x ∧
          Sighting.Step .cut x y ∧ Sighting.Arrives secs toX toY k a v x y ∧
          Sighting.Run .cut y b := by
  refine ⟨fun s secs toX toY h => h.compile, ?_⟩
  intro p o host s m hload a ha t l secs toX toY rest hspot
  exact ha.arrives hload hspot

/-- A block that glides for a second. -/
def glidingBlock : Block where
  opcode := "motion_glidesecstoxy"
  inputs := .ofEntries [("SECS", .literal (.number 1.0)), ("X", .literal (.number 100.0)),
    ("Y", .literal (.number 50.0))]

/-- A sprite that glides, from the middle of the stage. -/
def gliding : TargetData where
  name := "Gliding"
  blocks := .ofEntries [
    ("x0", .block { opcode := "event_whenflagclicked", next := some "x1", topLevel := true }),
    ("x1", .block glidingBlock)]

/-- The sprite on a stage. -/
def glidingProject : Project := ⟨[{ isStage := true, name := "Stage" }, gliding]⟩

/-- With the clock the sprite glides, from the beginning of its glide to right behind it. -/
structure Clock.GlidesWith (c : Clock) (a b : Sighting Headless) : Prop where
  starts : ∃ m, Player.loadProject glidingProject {} ({} : Headless) .still = .ok m ∧
    World.Arises (m.setClock c) a.world
  begins : ∃ t l secs toX toY rest,
    a.spot = .work t l (Script.noting (Compile.glideNotes secs toX toY) ++ rest)
  run : Sighting.Run .cut a b
  behind : b.spot.isRestoring = true

/-- The glide of the sprite with a clock. -/
def Clock.glide? (c : Clock) : Option (Sighting Headless × Sighting Headless) :=
  (Player.loadProject glidingProject {} ({} : Headless) .still).toOption.bind fun m =>
    (m.setClock c).firstTimed? .cut

theorem Clock.glidesWith_of_glide? {c : Clock} {a b : Sighting Headless}
    (h : c.glide? = some (a, b)) (hopens : a.spot.notesThird .fromX = true) :
    c.GlidesWith a b := by
  obtain ⟨m, hm, hglide⟩ := Option.bind_eq_some_iff.mp h
  have hload := eq_ok_of_toOption hm
  obtain ⟨hreaches, ⟨t, l, s, code, hspot, hs⟩, hab, hrestoring⟩ := Machine.firstTimed?_spec hglide
  have ha : World.Arises m a.world := .head (.setClock trivial m c) hreaches
  obtain ⟨notes, poll, k, rest, htimed, heq, -, -⟩ := ha.exists_timed hload hspot hs
  rw [heq] at hspot
  rw [hspot] at hopens
  cases htimed with
  | wait => cases hopens
  | glide secs toX toY =>
    exact ⟨⟨m, hload, hreaches⟩, ⟨t, l, secs, toX, toY, rest, hspot⟩, hab, hrestoring⟩

/-- A thread behind its glide is not in it. -/
theorem Spot.not_gliding_of_isRestoring {x : Spot} {secs toX toY : Expr} {k : Label}
    (h : x.isRestoring = true) : ¬ x.Gliding secs toX toY k := by
  intro hgliding
  cases hgliding with
  | @noting t l left after _ hpoll =>
    cases left with
    | nil =>
      cases hpoll
      cases h
    | cons => cases h
  | testing | leaving | seated => cases h

/-- With a fixed clock the sprite glides to where it has to go. -/
theorem World.gliding_arrives :
    (∃ rest, Script.GlidePoll 0 rest ∧
      (Compile.commandAt (.of gliding none []) 0 [] glidingBlock).compile 0 = .ok (.save ::
        (Script.noting (Compile.glideNotes (.number 1.0) (.number 100.0) (.number 50.0)) ++
          .label 0 :: rest), 1)) ∧
    ∃ a b : Sighting Headless, ∃ secs toX toY k, (Clock.fixed 0.0 1.0).GlidesWith a b ∧
      b.sprite?.map (fun s => (s.x, s.y)) = some (100.0, 50.0) ∧
      ∃ v x y, Sighting.Stays .cut (·.spot.Gliding secs toX toY k) a v ∧ Sighting.Step .cut v x ∧
        Sighting.Step .cut x y ∧ Sighting.Arrives secs toX toY k a v x y ∧
        Sighting.Run .cut y b := by
  obtain ⟨hblocks, hruns⟩ := World.glide_arrives (H := Headless)
  refine ⟨hblocks _ _ _ _ (.place rfl rfl rfl rfl) 0, ?_⟩
  have hrun : (Clock.fixed 0.0 1.0).glide?.map
      (fun s => (s.1.spot.notesThird .fromX, s.2.sprite?.map fun s => (s.x, s.y))) =
      some (true, some (100.0, 50.0)) := by
    decide +kernel
  obtain ⟨⟨a, b⟩, hglide, hstates⟩ := Option.map_eq_some_iff.mp hrun
  have hglides := Clock.glidesWith_of_glide? hglide (congrArg (·.1) hstates)
  obtain ⟨m, hload, hreaches⟩ := hglides.starts
  obtain ⟨t, l, secs, toX, toY, rest, hspot⟩ := hglides.begins
  have ha : World.Arises m a.world := .head (.setClock trivial m _) hreaches
  obtain ⟨k, hends⟩ := hruns _ _ _ _ m hload a ha t l secs toX toY rest hspot
  have hended := (hends b hglides.run).resolve_left
    (Spot.not_gliding_of_isRestoring hglides.behind)
  exact ⟨a, b, secs, toX, toY, k, hglides, congrArg (·.2) hstates, hended⟩

/-- A glide that is found, with the place that it goes to and what is seen of the sprite at its
    end. -/
theorem Clock.exists_glidesWith {α : Type} {c : Clock} {place : Float × Float} {see : Sprite → α}
    {seen : Option α} (h : c.glide?.map (fun s => (s.1.spot.notesThird .fromX,
      (s.2.registers.toX, s.2.registers.toY), s.2.sprite?.map see)) = some (true, place, seen)) :
    ∃ a b : Sighting Headless, c.GlidesWith a b ∧
      (b.registers.toX, b.registers.toY) = place ∧ b.sprite?.map see = seen := by
  obtain ⟨⟨a, b⟩, hglide, hstates⟩ := Option.map_eq_some_iff.mp h
  exact ⟨a, b, Clock.glidesWith_of_glide? hglide (congrArg (·.1) hstates),
    congrArg (·.2.1) hstates, congrArg (·.2.2) hstates⟩

/-- A glide can end elsewhere. With a wall clock time may pass between the last move of the sprite
    and the question whether to go on: here the sprite is left half way. With a fixed clock at
    infinity no time passes that is a number: here the sprite is lost. -/
theorem World.glide_misses :
    (∃ a b : Sighting Headless, (Clock.wall (fun i => Float.ofNat i * 0.5) 0).GlidesWith a b ∧
      (b.registers.toX, b.registers.toY) = (100.0, 50.0) ∧
      b.sprite?.map (fun s => (s.x, s.y)) = some (50.0, 25.0)) ∧
    ∃ a b : Sighting Headless, (Clock.fixed (1.0 / 0.0) 1.0).GlidesWith a b ∧
      (b.registers.toX, b.registers.toY) = (100.0, 50.0) ∧
      b.sprite?.map (fun s => (s.x.isNaN, s.y.isNaN)) = some (true, true) := by
  constructor
  · exact Clock.exists_glidesWith (by decide +kernel)
  · exact Clock.exists_glidesWith (by decide +kernel)

end BlockScript
