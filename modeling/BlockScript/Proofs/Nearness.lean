import BlockScript.Proofs.Glides
import BlockScript.Proofs.Incarnations
import BlockScript.Proofs.Literals
import BlockScript.Proofs.Registers
import BlockScript.Proofs.Undefined

/-!
# Sprites near the stage

A sprite that moves is brought back into twice the stage, wherever it was sent, also from infinity.
Only a place that is not a number cannot be brought back. No operand is such a place, for operands
are numbers, and neither is a register; but a move along a direction multiplies, and so does a
glide, and an infinity times zero is lost. Then the sprite is nowhere.

* `Number.clamp_within_iff`: what is brought into an interval is in it if it is a number;
* `Sprite.Near`, `Sprite.near_moveTo_iff`: which places are brought back;
* `Act.Strays`, `Act.strays_iff`: which moves lose the sprite;
* `Act.exists_moved`: a move changes the place of its sprite;
* `World.moves_near`: after each move of a sprite it is near the stage, or it has strayed.
-/

namespace BlockScript

/-! ## 1. Places that are brought back -/

namespace Number

open Float.Model (UnpackedFloat)

/-- Only a number is at least another. -/
theorem isNaN_of_le {x y : Float} (h : x ≤ y) : y.isNaN = false := by
  have hle : Float.le x y = true := h
  rw [Float.le, decide_eq_true_iff] at hle
  replace hle : x.toModel.unpack.le y.toModel.unpack = true := hle
  show y.toModel.unpack.isNaN = false
  generalize x.toModel.unpack = u at hle
  generalize y.toModel.unpack = v at hle ⊢
  cases v with
  | notANumber => cases u <;> cases hle
  | _ => rfl

theorem clamp_of_isNaN {x : Float} (h : x.isNaN = true) (low high : Float) :
    clamp low high x = x := by
  have hlow : ¬ x < low := fun hlt => Bool.eq_false_iff.mp (isNaN_of_lt hlt).1 h
  have hhigh : ¬ high < x := fun hlt => Bool.eq_false_iff.mp (isNaN_of_lt hlt).2 h
  unfold clamp
  dsimp only
  rw [if_neg hlow, if_neg hhigh]

/-- **An interval holds every number that is brought into it**, and only numbers. -/
theorem clamp_within_iff {low high : Float} (h : low ≤ high) (hlow : low.isNaN = false) (x : Float) :
    low ≤ clamp low high x ∧ clamp low high x ≤ high ↔ x.isNaN = false := by
  have hhigh := isNaN_of_le h
  have hself {z : Float} (hz : z.isNaN = false) : z ≤ z :=
    (le_iff_ordinal hz hz).mpr (Int.le_refl _)
  constructor
  · rintro ⟨hle, -⟩
    by_contra hnan
    rw [Bool.not_eq_false] at hnan
    rw [clamp_of_isNaN hnan] at hle
    exact Bool.eq_false_iff.mp (isNaN_of_le hle) hnan
  · intro hx
    unfold clamp
    dsimp only
    by_cases hbelow : x < low
    · rw [if_pos hbelow, if_neg ((le_iff_not_lt hhigh hlow).mp h)]
      exact ⟨hself hlow, h⟩
    · rw [if_neg hbelow]
      split
      · exact ⟨h, hself hhigh⟩
      · rename_i habove
        exact ⟨(le_iff_not_lt hx hlow).mpr hbelow, (le_iff_not_lt hhigh hx).mpr habove⟩

end Number

namespace Sprite

/-- The sprite is within twice the stage. -/
def Near (s : Sprite) : Prop :=
  (-480.0 ≤ s.x ∧ s.x ≤ 480.0) ∧ -360.0 ≤ s.y ∧ s.y ≤ 360.0

variable (s : Sprite) (p : Point)

/-- **Every place is brought back** that has numbers for coordinates. -/
theorem near_moveTo_iff : (s.moveTo p).Near ↔ p.x.isNaN = false ∧ p.y.isNaN = false := by
  have hwidth : stageHalfWidth * 2.0 = 480.0 := by decide +kernel
  have hheight : stageHalfHeight * 2.0 = 360.0 := by decide +kernel
  have hx : (-480.0 : Float) ≤ 480.0 := by decide +kernel
  have hy : (-360.0 : Float) ≤ 360.0 := by decide +kernel
  unfold Near moveTo
  rw [hwidth, hheight]
  exact and_congr (Number.clamp_within_iff hx (by decide +kernel) p.x)
    (Number.clamp_within_iff hy (by decide +kernel) p.y)

/-- A sprite that is not brought back has no place. -/
theorem isNaN_of_not_near (h : ¬ (s.moveTo p).Near) :
    (s.moveTo p).x.isNaN = true ∨ (s.moveTo p).y.isNaN = true := by
  rw [near_moveTo_iff, not_and_or, Bool.not_eq_false, Bool.not_eq_false] at h
  refine h.imp (fun hx => ?_) fun hy => ?_
  · show (Number.clamp _ _ p.x).isNaN = true
    rw [Number.clamp_of_isNaN hx]
    exact hx
  · show (Number.clamp _ _ p.y).isNaN = true
    rw [Number.clamp_of_isNaN hy]
    exact hy

end Sprite

/-! ## 2. Moves that lose the sprite -/

namespace Number

/-- A point between two others, a part of the way from the first to the second, that is lost: the
    part of the way has no value, or it meets the other infinity. -/
def Lost (start stop part : Float) : Prop :=
  Void (stop - start) part ∨ Clash start ((stop - start) * part)

theorem isNaN_between_iff (start stop part : Float) :
    (start + (stop - start) * part).isNaN = true ↔ Lost start stop part := by
  rw [isNaN_add_iff, isNaN_mul_iff]
  constructor
  · rintro (hstart | hlost)
    · refine .inl (.inl ?_)
      by_contra hsub
      rw [Bool.not_eq_true] at hsub
      exact Bool.eq_false_iff.mp (isNaN_of_sub hsub).2 hstart
    · exact hlost
  · exact .inr

theorem isInf_of_isFinite {x : Float} (h : x.isFinite = true) : x.isInf = false := by
  have hmodel : x.toModel.unpack.isFinite = true := h
  show x.toModel.unpack.isInf = false
  generalize x.toModel.unpack = u at hmodel
  cases u with
  | infinity => cases hmodel
  | _ => rfl

/-- What is added to a finite number is lost only if it was lost before. -/
theorem isNaN_finite_add {x : Float} (hx : x.isFinite = true) (y : Float) :
    (x + y).isNaN = y.isNaN := by
  have hiff : (x + y).isNaN = true ↔ y.isNaN = true := by
    rw [isNaN_add_iff, Clash, isNaN_of_isFinite hx, isInf_of_isFinite hx]
    simp
  exact Bool.eq_iff_iff.mpr hiff

/-- A number that is moved by a half and scaled is a number. -/
theorem isNaN_scaled {w u : Float} (hw : w.isFinite = true) (hne : (w == 0.0) = false)
    (hu : u.isNaN = false) : (w * (u - 0.5)).isNaN = false := by
  have hhalf : (0.5 : Float).isNaN = false ∧ (-0.5 : Float).isNaN = false ∧
      (-0.5 : Float).isInf = false := by
    decide +kernel
  obtain ⟨hhalf, hminus, hinf⟩ := hhalf
  have hmoved : ¬ (u - 0.5).isNaN = true := by
    rw [sub_eq_add_neg u hhalf, isNaN_add_iff, Clash, hu, hminus, hinf]
    simp
  rw [← Bool.not_eq_true, isNaN_mul_iff, Void, isNaN_of_isFinite hw, isInf_of_isFinite hw, hne]
  simpa using hmoved

theorem isNaN_round {x : Float} (h : x.isNaN = false) : (round x).isNaN = false := by
  unfold round wholeBy
  split
  · dsimp only
    split
    · exact h
    · exact isNaN_signed (isNaN_nearest _ 1) _
  · exact h

end Number

namespace Act

open Number (Void Lost)

variable {H : Type}

/-- How far along a glide is, as a part of the whole, while it is on its way. -/
def glidePart (rs : Registers) (now : Float) : Float := (now - rs.start) / rs.duration

theorem glidePlace_of_not_le {rs : Registers} {now : Float}
    (h : ¬ (rs.duration ≤ 0.0 ∨ rs.duration ≤ now - rs.start)) :
    glidePlace rs now = ⟨rs.fromX + (rs.toX - rs.fromX) * glidePart rs now,
      rs.fromY + (rs.toY - rs.fromY) * glidePart rs now⟩ := by
  unfold glidePlace
  dsimp only
  rw [if_neg (by simpa using h)]
  rfl

/-- A place by chance is a place. -/
theorem isNaN_of_randomPlace {t t' : Turn H} {p : Point} (h : randomPlace t = .ok p t') :
    p.x.isNaN = false ∧ p.y.isNaN = false := by
  have hstage : ((stageHalfWidth * 2.0).isFinite = true ∧ (stageHalfWidth * 2.0 == 0.0) = false) ∧
      (stageHalfHeight * 2.0).isFinite = true ∧ (stageHalfHeight * 2.0 == 0.0) = false := by
    decide +kernel
  obtain ⟨⟨hwidth, hwidth'⟩, hheight, hheight'⟩ := hstage
  obtain ⟨x, t₁, hx, h⟩ := bind_eq_ok.mp h
  obtain ⟨y, t₂, hy, h⟩ := bind_eq_ok.mp h
  cases hx
  cases hy
  cases h
  exact ⟨Number.isNaN_round (Number.isNaN_scaled hwidth hwidth' (Number.isNaN_nearest _ _)),
    Number.isNaN_round (Number.isNaN_scaled hheight hheight' (Number.isNaN_nearest _ _))⟩

variable [Host H]

/-- **How a sprite strays**: a move along its direction meets an infinity times zero, it goes to the
    mouse or to a sprite that is nowhere, or a glide loses its way. -/
inductive Strays (s : Sprite) (t : Turn H) : MotionOp → Prop
  | move {steps : Expr} {n : Float} {t' : Turn H} (hsteps : evalNumber steps t = .ok n t')
      (h : Void n (Number.toRadians (90.0 - s.direction)).cos ∨
        Void n (Number.toRadians (90.0 - s.direction)).sin) : Strays s t (.move steps)
  | goto {name : Expr} {place : String} {p : Point} {t' t'' : Turn H}
      (hname : evalText name t = .ok place t') (hplace : placeOf place t' = .ok (some p) t'')
      (hrandom : place ≠ "_random_") (h : p.x.isNaN = true ∨ p.y.isNaN = true) :
      Strays s t (.gotoTarget name)
  | glide {rs : Registers} {now : Float} (hrs : t.thread.registers = rs)
      (hnow : t.machine.clock.read.1 = now)
      (hway : ¬ (rs.duration ≤ 0.0 ∨ rs.duration ≤ now - rs.start))
      (h : Lost rs.fromX rs.toX (glidePart rs now) ∨ Lost rs.fromY rs.toY (glidePart rs now)) :
      Strays s t .glideStep

section Destination

variable {s : Sprite} {t t' : Turn H} {p : Point}

theorem strays_move_iff (hx : s.x.isFinite = true) (hy : s.y.isFinite = true) {steps : Expr}
    (h : destination s (.move steps) t = .ok (some p) t') :
    p.x.isNaN = true ∨ p.y.isNaN = true ↔ Strays s t (.move steps) := by
  obtain ⟨n, t₁, hn, h⟩ := bind_eq_ok.mp h
  cases h
  rw [Number.isNaN_finite_add hx, Number.isNaN_finite_add hy, Number.isNaN_mul_iff,
    Number.isNaN_mul_iff]
  refine ⟨.move hn, fun hstrays => ?_⟩
  cases hstrays with
  | move hn' h =>
    rw [hn] at hn'
    cases hn'
    exact h

theorem strays_goto_iff {name : Expr} (h : destination s (.gotoTarget name) t = .ok (some p) t') :
    p.x.isNaN = true ∨ p.y.isNaN = true ↔ Strays s t (.gotoTarget name) := by
  obtain ⟨place, t₁, hname, hplace⟩ := bind_eq_ok.mp h
  constructor
  · intro hnowhere
    refine .goto hname hplace (fun hrandom => ?_) hnowhere
    rw [hrandom] at hplace
    obtain ⟨q, t₂, hq, h⟩ := bind_eq_ok.mp hplace
    cases h
    obtain ⟨hx, hy⟩ := isNaN_of_randomPlace hq
    rw [hx, hy] at hnowhere
    exact hnowhere.elim Bool.false_ne_true Bool.false_ne_true
  · intro hstrays
    cases hstrays with
    | goto hname' hplace' _ h =>
      rw [hname] at hname'
      cases hname'
      rw [hplace] at hplace'
      cases hplace'
      exact h

theorem strays_glide_iff (hrs : t.thread.registers.Numbered)
    (h : destination s .glideStep t = .ok (some p) t') :
    p.x.isNaN = true ∨ p.y.isNaN = true ↔ Strays s t .glideStep := by
  cases h
  by_cases hend : t.thread.registers.duration ≤ 0.0 ∨
      t.thread.registers.duration ≤ t.machine.clock.read.1 - t.thread.registers.start
  · have hx : t.thread.registers.toX.isNaN = false := hrs .toX
    have hy : t.thread.registers.toY.isNaN = false := hrs .toY
    rw [glidePlace_of_le hend]
    dsimp only
    rw [hx, hy]
    refine iff_of_false (not_or.mpr ⟨Bool.false_ne_true, Bool.false_ne_true⟩) fun hstrays => ?_
    cases hstrays with
    | glide hrs' hnow hway =>
      rw [← hrs', ← hnow] at hway
      exact hway hend
  · rw [glidePlace_of_not_le hend, Number.isNaN_between_iff, Number.isNaN_between_iff]
    refine ⟨.glide rfl rfl hend, fun hstrays => ?_⟩
    cases hstrays with
    | glide hrs' hnow _ h =>
      rw [← hrs', ← hnow] at h
      exact h

/-- **Where a move leads is a place**, unless the sprite strays. Whoever goes to coordinates or
    changes them never strays, for operands are numbers. -/
theorem strays_iff {op : MotionOp} (hx : s.x.isFinite = true) (hy : s.y.isFinite = true)
    (hrs : t.thread.registers.Numbered) (h : destination s op t = .ok (some p) t') :
    p.x.isNaN = true ∨ p.y.isNaN = true ↔ Strays s t op := by
  have hnever {x y : Float} (hx : x.isNaN = false) (hy : y.isNaN = false) (hno : ¬ Strays s t op) :
      x.isNaN = true ∨ y.isNaN = true ↔ Strays s t op := by
    rw [hx, hy]
    exact iff_of_false (not_or.mpr ⟨Bool.false_ne_true, Bool.false_ne_true⟩) hno
  have hx' := Number.isNaN_of_isFinite hx
  have hy' := Number.isNaN_of_isFinite hy
  cases op with
  | move => exact strays_move_iff hx hy h
  | gotoTarget => exact strays_goto_iff h
  | glideStep => exact strays_glide_iff hrs h
  | gotoXY =>
    obtain ⟨x, t₁, hevalX, h⟩ := bind_eq_ok.mp h
    obtain ⟨y, t₂, hevalY, h⟩ := bind_eq_ok.mp h
    cases h
    refine hnever (isNaN_of_evalNumber hevalX) (isNaN_of_evalNumber hevalY) fun hstrays => ?_
    cases hstrays
  | setX =>
    obtain ⟨x, t₁, heval, h⟩ := bind_eq_ok.mp h
    cases h
    refine hnever (isNaN_of_evalNumber heval) hy' fun hstrays => ?_
    cases hstrays
  | setY =>
    obtain ⟨y, t₁, heval, h⟩ := bind_eq_ok.mp h
    cases h
    refine hnever hx' (isNaN_of_evalNumber heval) fun hstrays => ?_
    cases hstrays
  | changeX =>
    obtain ⟨x, t₁, heval, h⟩ := bind_eq_ok.mp h
    cases h
    have hsum := (Number.isNaN_finite_add hx x).trans (isNaN_of_evalNumber heval)
    refine hnever hsum hy' fun hstrays => ?_
    cases hstrays
  | changeY =>
    obtain ⟨y, t₁, heval, h⟩ := bind_eq_ok.mp h
    cases h
    have hsum := (Number.isNaN_finite_add hy y).trans (isNaN_of_evalNumber heval)
    refine hnever hx' hsum fun hstrays => ?_
    cases hstrays
  | turn | pointIn | pointTowards | bounce | setRotationStyle => cases h

end Destination

/-! ## 3. What a move does -/

section Moved

variable {t t' : Turn H} {target : Target} {s : Sprite} {op : MotionOp} {p : Point}

omit [Host H] in
theorem exists_touchTarget (h : t.machine.target? t.thread.target = some target) :
    ∃ t', touchTarget t = .ok () t' := by
  unfold touchTarget
  rw [bind_apply, current_apply, h]
  dsimp only
  split
  · exact ⟨_, rfl⟩
  · exact ⟨_, rfl⟩

theorem exists_drawTrail (h : t.machine.target? t.thread.target = some target) (start : Point) :
    ∃ t', drawTrail start t = .ok () t' := by
  unfold drawTrail
  rw [bind_apply, current_apply, h]
  dsimp only
  cases target.sprite? with
  | none => exact ⟨_, rfl⟩
  | some s =>
    dsimp only
    split
    · exact ⟨_, rfl⟩
    · exact ⟨_, rfl⟩

/-- **A move takes the sprite where it leads**, and the thread goes on. -/
theorem exists_moved (htarget : t.machine.target? t.thread.target = some target)
    (hid : target.id = t.thread.target) (hs : target.sprite? = some s)
    (h : destination s op t = .ok (some p) t') :
    ∃ u, exec (.motion op) t = .ok (.onward []) u ∧
      (u.machine.target? t.thread.target).bind Target.sprite? = some (s.moveTo p) := by
  have hmade : Made (Sensing True) _ (destination (H := H) s op) :=
    made_destination s op (fun e _ => e.frees_true) fun _ => trivial
  -- to find out where it leads changes neither the sprite nor whose turn it is
  have hthread : t'.thread.target = t.thread.target := (hmade.keepsThread_sensing.of_ok h).target
  have htargets : t'.machine.targets = t.machine.targets := (hmade.aside.of_ok h).targets
  have htarget' : t'.machine.target? t'.thread.target = some target := by
    rw [hthread]
    unfold Machine.target?
    rw [htargets]
    exact htarget
  obtain ⟨t₁, ht₁⟩ : ∃ t₁ : Turn H, t₁ = { t' with
    machine := t'.machine.mapTarget target.id fun x => x.mapSprite fun s => s.moveTo p } := ⟨_, rfl⟩
  have hmoved : t₁.machine.target? t₁.thread.target =
      some (target.mapSprite fun s => s.moveTo p) := by
    rw [ht₁]
    show (t'.machine.mapTarget _ _).target? t'.thread.target = _
    rw [Machine.target?_mapTarget, if_pos (hid.trans hthread.symm), htarget', Option.map_some]
  obtain ⟨t₂, htrail⟩ := exists_drawTrail hmoved s.place
  obtain ⟨hsame, htargets₂⟩ := (sameScene_drawTrail _).of_ok htrail
  have hmoved₂ : t₂.machine.target? t₂.thread.target =
      some (target.mapSprite fun s => s.moveTo p) := by
    unfold Machine.target?
    rw [hsame, htargets₂]
    exact hmoved
  obtain ⟨u, htouch⟩ := exists_touchTarget hmoved₂
  obtain ⟨hsame₃, htargets₃⟩ := sameScene_touchTarget.of_ok htouch
  refine ⟨u, ?_, ?_⟩
  · refine bind_eq_ok.mpr ⟨(), u, ?_, rfl⟩
    unfold execMotion
    rw [bind_apply, current_apply, htarget]
    dsimp only
    rw [hs]
    refine bind_eq_ok.mpr ⟨_, _, h, ?_⟩
    refine bind_eq_ok.mpr ⟨(), t₁, ?_, bind_eq_ok.mpr ⟨(), t₂, htrail, htouch⟩⟩
    rw [ht₁]
    exact modifySprite_apply htarget' hs _
  · have hfinal : u.machine.target? t.thread.target =
        some (target.mapSprite fun s => s.moveTo p) := by
      have hwhose : t₁.thread.target = t.thread.target := by
        rw [ht₁]
        exact hthread
      rw [← hwhose]
      refine Eq.trans ?_ hmoved
      unfold Machine.target?
      rw [htargets₃, htargets₂]
    rw [hfinal, Option.bind_some, Target.sprite?_mapSprite, hs, Option.map_some]

end Moved

end Act

/-! ## 4. Every move -/

/-- **After a move the sprite is near the stage, or it has strayed.** In every state, whatever the
    programs are: a move that leads somewhere, of a sprite whose place is finite, is carried out, and
    then the sprite is within twice the stage unless the move met an infinity times zero, led to
    something that is nowhere, or was a glide that lost its way. A sprite that strays is nowhere. -/
theorem World.moves_near {H : Type} [Host H] {p : Project} {programs : List Program} {o : Options}
    {host : H} {s : Surroundings} {m : Machine H} (hload : Machine.load p programs o host s = .ok m)
    {t : Turn H} {l : Label} {op : MotionOp} {rest : List Stmt} {length : Nat} {seats : List Nat}
    (hw : World.Arises m (.turn t l (.motion op :: rest) length seats)) {sprite : Sprite}
    (hsprite : (t.machine.target? t.thread.target).bind Target.sprite? = some sprite)
    (hx : sprite.x.isFinite = true) (hy : sprite.y.isFinite = true) {q : Point} {t₁ : Turn H}
    (hleads : Act.destination sprite op t = .ok (some q) t₁) :
    ∃ u sprite', Act.exec (.motion op) t = .ok (.onward []) u ∧
      World.Step .cut (.turn t l (.motion op :: rest) length seats) (.turn u l rest length seats) ∧
      (u.machine.target? t.thread.target).bind Target.sprite? = some sprite' ∧
      (sprite'.Near ↔ ¬ Act.Strays sprite t op) ∧
      (¬ sprite'.Near → sprite'.x.isNaN = true ∨ sprite'.y.isNaN = true) := by
  obtain ⟨target, htarget, hs⟩ := Option.bind_eq_some_iff.mp hsprite
  obtain ⟨⟨hm, -⟩, -, hnumbered⟩ := hw.numbered hload
  obtain ⟨u, hexec, hmoved⟩ := Act.exists_moved htarget (hm.id _ _ htarget) hs hleads
  refine ⟨u, sprite.moveTo q, hexec, .onward hexec l rest length seats, hmoved, ?_,
    sprite.isNaN_of_not_near q⟩
  rw [← Act.strays_iff hx hy hnumbered.registers hleads, Sprite.near_moveTo_iff, not_or,
    Bool.not_eq_true, Bool.not_eq_true]

/-- The sprite before and after the move at hand, if it leads somewhere. -/
def World.drift? {H : Type} [Host H] : World H → Option (Sprite × Sprite)
  | .turn t _ (.motion op :: _) _ _ => do
    let s ← (t.machine.target? t.thread.target).bind Target.sprite?
    match Act.destination s op t, Act.exec (.motion op) t with
    | .ok (some _) _, .ok (.onward []) u =>
      let s' ← (u.machine.target? t.thread.target).bind Target.sprite?
      return (s, s')
    | _, _ => none
  | _ => none

/-- A sprite that does one thing when the flag is clicked. -/
def driftingProject (b : Block) : Project :=
  ⟨[{ isStage := true, name := "Stage" },
    { name := "Drifting",
      blocks := .ofEntries [
        ("y0", .block { opcode := "event_whenflagclicked", next := some "y1", topLevel := true }),
        ("y1", .block b)] }]⟩

/-- The sprite before and after its first move. -/
def Block.drift? (b : Block) : Option (Sprite × Sprite) :=
  (Player.loadProject (driftingProject b) {} ({} : Headless) .still).toOption.bind fun m =>
    ((World.rest m.greenFlag.2).seek? .cut (fun w => w.drift?.isSome) 20).bind World.drift?

/-- In a run the sprite does the block and moves, from where it was to where it is. -/
structure Block.Drifts (b : Block) (m : Machine Headless) (t u : Turn Headless) (op : MotionOp)
    (s s' : Sprite) : Prop where
  load : Player.loadProject (driftingProject b) {} ({} : Headless) .still = .ok m
  arises : ∃ l rest length seats, World.Arises m (.turn t l (.motion op :: rest) length seats)
  before : (t.machine.target? t.thread.target).bind Target.sprite? = some s
  leads : ∃ q t₁, Act.destination s op t = .ok (some q) t₁
  exec : Act.exec (.motion op) t = .ok (.onward []) u
  after : (u.machine.target? t.thread.target).bind Target.sprite? = some s'

theorem Block.exists_drifts {b : Block} {s s' : Sprite} (h : b.drift? = some (s, s')) :
    ∃ m t u op, b.Drifts m t u op s s' := by
  obtain ⟨m, hm, h⟩ := Option.bind_eq_some_iff.mp h
  obtain ⟨w, hseek, hdrift⟩ := Option.bind_eq_some_iff.mp h
  have hw : World.Arises m w := .head (.greenFlag m) (World.reaches_seek? hseek).1
  unfold World.drift? at hdrift
  split at hdrift
  · rename_i t l op rest length seats
    obtain ⟨s₀, hbefore, hdrift⟩ := Option.bind_eq_some_iff.mp hdrift
    split at hdrift
    · rename_i q t₁ u hleads hexec
      obtain ⟨s₁, hafter, hdrift⟩ := Option.bind_eq_some_iff.mp hdrift
      cases hdrift
      exact ⟨m, t, u, op, eq_ok_of_toOption hm, ⟨l, rest, length, seats, hw⟩, hbefore,
        ⟨q, t₁, hleads⟩, hexec, hafter⟩
    · cases hdrift
  · cases hdrift

/-- A block that goes to infinity at once. -/
def leap : Block where
  opcode := "motion_changexby"
  inputs := .ofEntries [("DX", .literal (.number Number.infinity))]

/-- A block that glides to infinity. -/
def drift : Block where
  opcode := "motion_glidesecstoxy"
  inputs := .ofEntries [("SECS", .literal (.number 1.0)),
    ("X", .literal (.number Number.infinity)), ("Y", .literal (.number 0.0))]

/-- A sprite that is sent to infinity comes to rest at the edge. -/
theorem World.leap_near :
    ∃ m t u op s s', leap.Drifts m t u op s s' ∧ (s.x, s.y) = (0.0, 0.0) ∧
      (s'.x, s'.y) = (480.0, 0.0) ∧ s'.Near ∧ ¬ Act.Strays s t op := by
  have hrun : (leap.drift?.map fun s => ((s.1.x, s.1.y), s.2.x, s.2.y)) =
      some ((0.0, 0.0), 480.0, 0.0) := by
    decide +kernel
  obtain ⟨⟨s, s'⟩, hdrift, hplaces⟩ := Option.map_eq_some_iff.mp hrun
  obtain ⟨hstart, hstop⟩ := Prod.mk.inj hplaces
  obtain ⟨m, t, u, op, hdrifts⟩ := Block.exists_drifts hdrift
  obtain ⟨hload, ⟨l, rest, length, seats, hw⟩, hbefore, ⟨q, t₁, hleads⟩, hexec, hafter⟩ := id hdrifts
  obtain ⟨programs, -, hmachine⟩ := except_bind_eq_ok.mp hload
  have hfinite : s.x.isFinite = true ∧ s.y.isFinite = true := by
    obtain ⟨hx, hy⟩ := Prod.mk.inj hstart
    rw [hx, hy]
    decide +kernel
  have hnear : s'.Near := by
    obtain ⟨hx, hy⟩ := Prod.mk.inj hstop
    unfold Sprite.Near
    rw [hx, hy]
    decide +kernel
  obtain ⟨u', s'', hexec', -, hafter', hiff, -⟩ :=
    World.moves_near hmachine hw hbefore hfinite.1 hfinite.2 hleads
  rw [hexec] at hexec'
  cases hexec'
  rw [hafter] at hafter'
  cases hafter'
  exact ⟨m, t, u, op, s, s', hdrifts, hstart, hstop, hnear, hiff.mp hnear⟩

/-- **A sprite that glides to infinity is lost**: at the first step of its glide no time has passed,
    and no part of an infinite way has no value. -/
theorem World.drift_strays :
    ∃ m t u op s s', drift.Drifts m t u op s s' ∧ (s.x, s.y) = (0.0, 0.0) ∧
      s'.x.isNaN = true ∧ ¬ s'.Near := by
  have hrun : (drift.drift?.map fun s => ((s.1.x, s.1.y), s.2.x.isNaN)) =
      some ((0.0, 0.0), true) := by
    decide +kernel
  obtain ⟨⟨s, s'⟩, hdrift, hplaces⟩ := Option.map_eq_some_iff.mp hrun
  obtain ⟨hstart, hlost⟩ := Prod.mk.inj hplaces
  obtain ⟨m, t, u, op, hdrifts⟩ := Block.exists_drifts hdrift
  refine ⟨m, t, u, op, s, s', hdrifts, hstart, hlost, fun hnear => ?_⟩
  exact Bool.eq_false_iff.mp (Number.isNaN_of_le hnear.1.1) hlost

end BlockScript
