import BlockScript.Proofs.Costumes
import BlockScript.Proofs.Pacing

/-!
# Names that are folded to numbers

Where a block names a costume, a backdrop or a sound by a constant text, the compiler puts the
number of the asset in place of its name. Names may look like numbers or like the words for
backdrops, and two assets may have one name. Here the number is shown to mean what the text means,
to the target that has the script and to each of its clones.

* `Asset.folded`: a name, or the number in its place;
* `Target.costumeFor_folded`, `Asset.find?_folded`: the number means what the text means;
* `Compile.Command.Picks`: the blocks that name an asset;
* `World.folding_keeps_meaning`: a statement does the same with the number as with the text.
-/

namespace BlockScript

/-! ## 1. What a number means -/

/-- What the compiler makes of the name of an asset: its number, if there is an asset with the
    name. -/
def Asset.folded (names : List String) (text : String) : Value :=
  ((byName? names text).map fun i => Value.number (Number.ofNat (i + 1))).getD (.text text)

namespace Asset

variable {names : List String} (hlt : names.length < 2 ^ 53) (text : String)

include hlt

/-- A name is folded to a number that counts up to the asset, or it is no name. -/
theorem folded_cases :
    (byName? names text = none ∧ folded names text = .text text) ∨
      ∃ i n, byName? names text = some i ∧ folded names text = .number n ∧
        byNumber? names.length n = some i := by
  unfold folded
  cases h : byName? names text with
  | none => exact .inl ⟨rfl, rfl⟩
  | some i =>
    have hi := lt_of_byName? h
    exact .inr ⟨i, _, rfl, rfl, byNumber?_succ (by omega) hlt hi⟩

/-- **A sound that is named by its number** is the one that is named by the text. -/
theorem find?_folded : find? names (folded names text) = find? names (.text text) := by
  rcases folded_cases hlt text with ⟨-, hsame⟩ | ⟨i, n, hname, hfolded, hnumber⟩
  · rw [hsame]
  · rw [hfolded]
    unfold find?
    dsimp only [Value.toText]
    rw [hnumber, hname]

end Asset

/-- **A costume that is named by its number** is the one that is named by the text. -/
theorem Target.costumeFor_folded {t : Target} (hlt : t.costumes.length < 2 ^ 53) (text : String) :
    t.costumeFor (Asset.folded t.costumes text) = t.costumeFor (.text text) := by
  rcases Asset.folded_cases hlt text with ⟨-, hsame⟩ | ⟨i, n, hname, hfolded, hnumber⟩
  · rw [hsame]
  · rw [hfolded]
    unfold costumeFor
    dsimp only [Value.toText]
    rw [hnumber, hname]
    rfl

namespace Machine

variable {H : Type} [Host H] {m : Machine H} {t : Target}

omit [Host H] in
/-- The same costume is put on, and the same is told about a change. -/
theorem changeCostume_folded (hlt : t.costumes.length < 2 ^ 53) (text : String) :
    m.changeCostume t (Asset.folded t.costumes text) = m.changeCostume t (.text text) := by
  unfold changeCostume Target.dress
  rw [Target.costumeFor_folded hlt]

theorem switchBackdrop_folded (ht : m.stage? = some t) (hlt : t.costumes.length < 2 ^ 53)
    (text : String) :
    m.switchBackdrop (Asset.folded t.costumes text) = m.switchBackdrop (.text text) := by
  unfold switchBackdrop
  rw [ht]
  dsimp only
  rw [changeCostume_folded hlt]

end Machine

/-! ## 2. Blocks that name an asset -/

namespace Compile

theorem Site.asset_of_text {s : Site} {slot : String} {text : String}
    (h : s.any slot = .ok (.text text)) (names : List String) :
    s.asset slot names = .ok (.const (Asset.folded names text)) := by
  unfold Asset.folded
  cases h' : Asset.byName? names text with
  | none =>
    have hnone : names.findIdx? (· == text) = none := h'
    refine except_bind_eq_ok.mpr ⟨_, h, ?_⟩
    dsimp only [Expr.text]
    rw [hnone]
    rfl
  | some i =>
    have hsome : names.findIdx? (· == text) = some i := h'
    refine except_bind_eq_ok.mpr ⟨_, h, ?_⟩
    dsimp only [Expr.text]
    rw [hsome]
    rfl

/-- A block that names an asset: the input with the name, the assets among which it is, and the
    statement that the block is there for. -/
inductive Command.Picks (s : Command) : String → List String → (Expr → Stmt) → Prop
  | costume (hopcode : s.block.opcode = "looks_switchcostumeto") :
      Picks s "COSTUME" s.context.target.costumes fun e => .looks (.switchCostume e)
  | backdrop (hopcode : s.block.opcode = "looks_switchbackdropto") :
      Picks s "BACKDROP" s.context.backdrops (.switchBackdrop · false)
  | backdropAndWait (hopcode : s.block.opcode = "looks_switchbackdroptoandwait") :
      Picks s "BACKDROP" s.context.backdrops (.switchBackdrop · true)
  | sound (hopcode : s.block.opcode = "sound_play") :
      Picks s "SOUND_MENU" s.context.target.sounds fun e => .sound (.play e)
  | soundAndWait (hopcode : s.block.opcode = "sound_playuntildone") :
      Picks s "SOUND_MENU" s.context.target.sounds fun e => .sound (.playUntilDone e)

/-- A block whose code depends on the asset that it names. -/
theorem Command.compile_of_asset {s : Command} {slot : String} {names : List String} {e : Expr}
    (he : s.asset slot names = .ok e) {f : Expr → Fresh (List Stmt)}
    (h : s.compile? = some (do f (← s.asset slot names))) (n : Label) : s.compile n = f e n := by
  unfold Command.compile
  rw [h, Option.getD_some, he]
  rfl

/-- **What a block that names an asset becomes**: code with its statement in it, for the expression
    that the name was compiled to. -/
theorem Command.Picks.compile {s : Command} {slot : String} {names : List String}
    {stmt : Expr → Stmt} (h : s.Picks slot names stmt) {e : Expr}
    (he : s.asset slot names = .ok e) (n : Label) :
    ∃ code n', s.compile n = .ok (code, n') ∧ stmt e ∈ code := by
  have hplain (hcode : s.compile? = some (do
      let e ← s.asset slot names
      return [stmt e])) : ∃ code n', s.compile n = .ok (code, n') ∧ stmt e ∈ code :=
    ⟨_, _, compile_of_asset he hcode n, List.mem_cons_self⟩
  have hwaiting (pending : Expr) (hcode : s.compile? = some (do
      let e ← s.asset slot names
      return request (← freshLabel) (stmt e) pending [])) :
      ∃ code n', s.compile n = .ok (code, n') ∧ stmt e ∈ code :=
    ⟨_, _, compile_of_asset he hcode n, List.mem_cons_of_mem _ List.mem_cons_self⟩
  cases h with
  | costume hopcode | backdrop hopcode | sound hopcode =>
    refine hplain ?_
    unfold compile?
    rw [hopcode]
    rfl
  | backdropAndWait hopcode =>
    refine hwaiting .groupRunning ?_
    unfold compile?
    rw [hopcode]
    rfl
  | soundAndWait hopcode =>
    refine hwaiting .ticketPending ?_
    unfold compile?
    rw [hopcode]
    rfl

end Compile

/-! ## 3. Statements -/

namespace Act

variable {H : Type} [Host H] {T : Turn H} {t : Target}

theorem exec_switchCostume_folded (ht : T.machine.target? T.thread.target = some t)
    (hlt : t.costumes.length < 2 ^ 53) (text : String) :
    exec (.looks (.switchCostume (.const (Asset.folded t.costumes text)))) T =
      exec (.looks (.switchCostume (.text text))) T := by
  have hworn : execLook (.switchCostume (.const (Asset.folded t.costumes text))) T =
      execLook (.switchCostume (.text text)) T := by
    show wearCostume (Asset.folded t.costumes text) T = wearCostume (.text text) T
    simp only [wearCostume, bind_apply, current_apply, ht, ask_apply,
      Machine.changeCostume_folded hlt]
  simp only [exec, execLooks, bind_apply, hworn]

theorem exec_switchBackdrop_folded (ht : T.machine.stage? = some t)
    (hlt : t.costumes.length < 2 ^ 53) (text : String) (wait : Bool) :
    exec (.switchBackdrop (.const (Asset.folded t.costumes text)) wait) T =
      exec (.switchBackdrop (.text text) wait) T := by
  let m : Machine H := { T.machine with visual := true }
  have hswitch : m.switchBackdrop (Asset.folded t.costumes text) = m.switchBackdrop (.text text) :=
    Machine.switchBackdrop_folded (show m.stage? = some t from ht) hlt text
  have hexec (v : Value) : exec (.switchBackdrop (.const v) wait) T =
      execEvent wait (fun m => m.switchBackdrop v) { T with machine := m } := rfl
  show exec (.switchBackdrop (.const _) wait) T = exec (.switchBackdrop (.const (.text text)) wait) T
  rw [hexec, hexec]
  simp only [execEvent, bind_apply, ask_apply, hswitch]

theorem startSound_folded (ht : T.machine.target? T.thread.target = some t)
    (hlt : t.sounds.length < 2 ^ 53) (text : String) :
    startSound (.const (Asset.folded t.sounds text)) T = startSound (.text text) T := by
  have heval (v : Value) : eval (.const v) T = .ok v T := rfl
  simp only [startSound, Expr.text, bind_apply, heval, current_apply, ht, Asset.find?_folded hlt]

end Act

/-- Two values mean the same among assets with these names: the same sound, and the same costume,
    with the same answer to whether it is another one. -/
structure Asset.Alike (H : Type) (names : List String) (v v' : Value) : Prop where
  sound : find? names v = find? names v'
  costume : ∀ t : Target, t.costumes = names → t.costumeFor v = t.costumeFor v'
  change : ∀ (m : Machine H) (t : Target), t.costumes = names →
    m.changeCostume t v = m.changeCostume t v'

theorem Asset.alike_folded (H : Type) {names : List String} (hlt : names.length < 2 ^ 53)
    (text : String) : Alike H names (folded names text) (.text text) where
  sound := find?_folded hlt text
  costume t h := by
    subst h
    exact t.costumeFor_folded hlt text
  change m t h := by
    subst h
    exact Machine.changeCostume_folded hlt text

/-! ## 4. In every state of a project -/

namespace Compile

variable {d : TargetData} {stage : Option TargetData} {c : Context}

theorem Setting.target (h : Setting d stage c) : c.target = d := by
  cases h <;> rfl

theorem Setting.backdrops (h : Setting d stage c) :
    c.backdrops = ((if d.isStage then some d else stage).map (·.costumes)).getD [] := by
  cases h <;> rfl

end Compile

open Compile in
/-- **Folding the names of assets to numbers keeps their meaning.**

    Let a block name a costume, a backdrop or a sound by a constant text. What the compiler puts in
    its place means the same among these assets, and whichever target of the project has the script,
    the target itself or a clone of it, in whatever state: the statement does the same with it as
    with the text. -/
theorem World.folding_keeps_meaning {H : Type} [Host H] {p : Project} {o : Options} {host : H}
    {s : Surroundings} {m : Machine H} (hload : Player.loadProject p o host s = .ok m)
    (hcount : ∀ d ∈ p.targets, d.costumes.length < 2 ^ 53 ∧ d.sounds.length < 2 ^ 53)
    {w : World H} (hw : World.Arises m w) {id : TargetId} {t : Target}
    (ht : w.machine.target? id = some t) :
    ∃ d, t.Embodies p d ∧ ((d.isStage = true → p.stage? = some d) →
      ∀ c, Setting d p.stage? c → ∀ depth path b slot names stmt,
      (commandAt c depth path b).Picks slot names stmt →
      ∀ text, (commandAt c depth path b).any slot = .ok (.text text) →
      ∃ v, (commandAt c depth path b).asset slot names = .ok (.const v) ∧
        (∀ n, ∃ code n', (commandAt c depth path b).compile n = .ok (code, n') ∧
          stmt (.const v) ∈ code) ∧
        Asset.Alike H names v (.text text) ∧
        ∀ T : Turn H, T.machine = w.machine → T.thread.target = id →
          Act.exec (stmt (.const v)) T = Act.exec (stmt (.text text)) T) := by
  obtain ⟨d, hd⟩ := hw.peopled hload id t ht
  obtain ⟨stage, d', hstage, hd', hembodies⟩ := hw.exists_stage hload
  obtain ⟨hcostumes, hsounds⟩ := hcount d hd.mem
  have hbackdrops := (hcount d' hembodies.mem).1
  refine ⟨d, hd, fun hfirst c hc depth path b slot names stmt hpicks text hany => ?_⟩
  have hasset := Site.asset_of_text hany names
  refine ⟨_, hasset, hpicks.compile hasset, ?_⟩
  -- the backdrops are those of the stage at run time, whoever has the script
  have hsame : c.backdrops = stage.costumes := by
    rw [hc.backdrops, hembodies.costumes]
    by_cases hisStage : d.isStage = true
    · have heq : d = d' := Option.some.inj ((hfirst hisStage).symm.trans hd')
      rw [if_pos hisStage, heq]
      rfl
    · rw [if_neg hisStage, hd']
      rfl
  have htarget := hc.target
  rw [← hd.costumes] at hcostumes
  rw [← hd.sounds] at hsounds
  rw [← hembodies.costumes] at hbackdrops
  cases hpicks with
  | costume =>
    have hnames : (commandAt c depth path b).context.target.costumes = t.costumes := by
      rw [hd.costumes, ← htarget]
      rfl
    rw [hnames]
    refine ⟨Asset.alike_folded H hcostumes text, fun T hT hid => ?_⟩
    exact Act.exec_switchCostume_folded (by rw [hT, hid]; exact ht) hcostumes text
  | backdrop | backdropAndWait =>
    have hnames : (commandAt c depth path b).context.backdrops = stage.costumes := hsame
    rw [hnames]
    refine ⟨Asset.alike_folded H hbackdrops text, fun T hT hid => ?_⟩
    exact Act.exec_switchBackdrop_folded (by rw [hT]; exact hstage) hbackdrops text _
  | sound | soundAndWait =>
    have hnames : (commandAt c depth path b).context.target.sounds = t.sounds := by
      rw [hd.sounds, ← htarget]
      rfl
    rw [hnames]
    refine ⟨Asset.alike_folded H hsounds text, fun T hT hid => ?_⟩
    have hstart := Act.startSound_folded (by rw [hT, hid]; exact ht) hsounds text
    simp only [Act.exec, Act.execSound, Act.bind_apply, hstart]

/-- A sprite with costumes whose names look like numbers, two of them alike. -/
def masks : TargetData where
  name := "Masks"
  costumes := ["3", "fox", "3"]

/-- The sprite on a stage. -/
def masksProject : Project := ⟨[{ isStage := true, name := "Stage", costumes := ["3"] }, masks]⟩

/-- A block that names a costume by a text that is also the number of another one. -/
def wearThree : Block where
  opcode := "looks_switchcostumeto"
  inputs := .ofEntries [("COSTUME", .literal (.text "3"))]

open Compile in
theorem World.masks_folding_keeps_meaning :
    ∃ (m : Machine Headless) (t : Target),
      Player.loadProject masksProject {} {} .still = .ok m ∧
      (m.createClone 1).2.target? 2 = some t ∧ t.isClone = true ∧
      (commandAt (.of masks masksProject.stage? (procedures masks)) 1 [] wearThree).asset "COSTUME"
        masks.costumes = .ok (.number 1.0) ∧
      t.costumeFor (.number 1.0) = t.costumeFor (.text "3") ∧
      ∀ T : Turn Headless, T.machine = (m.createClone 1).2 → T.thread.target = 2 →
        Act.exec (.looks (.switchCostume (.number 1.0))) T =
          Act.exec (.looks (.switchCostume (.text "3"))) T := by
  have hrun : ((Player.loadProject masksProject {} ({} : Headless) .still).toOption.bind
      fun m => (m.createClone 1).2.target? 2).map (fun t => (t.isClone, t.costumes)) =
        some (true, masks.costumes) := by
    decide +kernel
  obtain ⟨t, hfound, hclone⟩ := Option.map_eq_some_iff.mp hrun
  obtain ⟨m, hm, ht⟩ := Option.bind_eq_some_iff.mp hfound
  have hload := eq_ok_of_toOption hm
  obtain ⟨hisClone, hcostumes⟩ := Prod.mk.inj hclone
  have hw : World.Arises m (.rest (m.createClone 1).2) :=
    .single (.request (r := .createClone 1) rfl m)
  obtain ⟨d, hd, hkeeps⟩ := World.folding_keeps_meaning hload (by decide) hw ht
  -- of the two targets, the clone comes from the sprite
  have hmasks : d = masks := by
    have hnames : d.costumes = masks.costumes := hd.costumes.symm.trans hcostumes
    rcases List.mem_cons.mp hd.mem with rfl | hmem
    · cases hnames
    · exact List.mem_singleton.mp hmem
  subst hmasks
  have hany : (commandAt (.of masks masksProject.stage? (procedures masks)) 1 [] wearThree).any
      "COSTUME" = .ok (.text "3") := rfl
  have hnumber : Asset.folded masks.costumes "3" = .number 1.0 := by
    have hone : Number.ofNat 1 = 1.0 := by decide +kernel
    rw [← hone]
    rfl
  obtain ⟨v, hasset, -, halike, hexec⟩ := hkeeps (fun h => by cases h) _ .hat 1 [] wearThree _ _ _
    (.costume rfl) "3" hany
  have hv : v = .number 1.0 := by
    have heq := (Site.asset_of_text hany masks.costumes).symm.trans hasset
    rw [hnumber] at heq
    cases heq
    rfl
  subst hv
  exact ⟨m, t, hload, ht, hisClone, hasset, halike.costume t hcostumes, hexec⟩

end BlockScript
