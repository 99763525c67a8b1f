import BlockScript.Proofs.Assembly

/-!
# Blocks that become nothing

A statement block with an unknown opcode becomes nothing. Whatever leads to it might as well lead to
the block below it, wherever it stands.

* `statementOpcodes`: the opcodes that are known;
* `TargetData.bypass`: the target in which all links to a block lead to the one below it;
* `Compile.Chain`: the blocks of a stack that has an end;
* `Compile.compile_bypass`: the target is compiled to the same program.
-/

namespace BlockScript

/-! ## 1. Links that lead past a block -/

namespace Table

variable {α β : Type}

/-- The table with each value replaced. -/
def map (f : String → α → β) (t : Table α) : Table β :=
  ⟨t.entries.map fun e => (e.1, f e.1 e.2), List.pairwise_map.mpr t.sorted⟩

theorem get?_map (f : String → α → β) (t : Table α) (name : String) :
    (t.map f).get? name = (t.get? name).map (f name) := by
  unfold get? map
  dsimp only
  induction t.entries with
  | nil => rfl
  | cons e rest ih =>
    rw [List.map_cons, List.lookup_cons, List.lookup_cons, ih]
    cases hname : name == e.1 with
    | true => rw [beq_iff_eq.mp hname]; rfl
    | false => rfl

theorem length_entries_map (f : String → α → β) (t : Table α) :
    (t.map f).entries.length = t.entries.length := List.length_map ..

end Table

/-- The inputs that hold stacks. -/
def stackSlots : List String := ["SUBSTACK", "SUBSTACK2"]

/-- The opcodes of the blocks that have such inputs. -/
def stackHolders : List String :=
  ["control_repeat", "control_forever", "control_if", "control_if_else", "control_repeat_until",
    "control_while"]

/-- Where a link leads that is to lead past a block, given what is below the block. -/
def relink (u : String) (below : Option String) (link : Option String) : Option String :=
  if link = some u then below else link

/-- What fills an input, if it is to lead past a block. -/
def Input.relink (u : String) (below : Option String) : Input → Input
  | .block id => if id = u then below.elim .empty .block else .block id
  | input => input

/-- A block whose links lead past another block. -/
def Block.relink (u : String) (below : Option String) (b : Block) : Block :=
  { b with
    next := BlockScript.relink u below b.next
    inputs :=
      if b.opcode ∈ stackHolders then
        b.inputs.map fun slot input => if slot ∈ stackSlots then input.relink u below else input
      else b.inputs }

/-- An entry with its block replaced. -/
def BlockEntry.map (f : Block → Block) : BlockEntry → BlockEntry
  | .block b => .block (f b)
  | .primitive j => .primitive j

namespace TargetData

/-- What is below a block. -/
def below (t : TargetData) (u : String) : Option String := (t.block? u).bind (·.next)

/-- The target with all links to a block leading to the one below it. The block itself stays. -/
def bypass (t : TargetData) (u : String) : TargetData :=
  { t with blocks := t.blocks.map fun _ e => e.map (Block.relink u (t.below u)) }

theorem block?_bypass (t : TargetData) (u id : String) :
    (t.bypass u).block? id = (t.block? id).map (Block.relink u (t.below u)) := by
  unfold block? bypass
  dsimp only
  rw [Table.get?_map]
  cases t.blocks.get? id with
  | none => rfl
  | some e => cases e <;> rfl

theorem topLevel_bypass (t : TargetData) (u : String) :
    (t.bypass u).topLevel = t.topLevel.map fun hat => (hat.1, hat.2.relink u (t.below u)) := by
  unfold topLevel bypass Table.map
  dsimp only
  rw [List.filterMap_map, List.map_filterMap]
  refine List.filterMap_congr fun e _ => ?_
  obtain ⟨id, b | j⟩ := e
  · dsimp only [Function.comp_apply, BlockEntry.map, Block.relink]
    split <;> rfl
  · rfl

end TargetData

namespace Block

variable {u : String} {below : Option String} (b : Block)

theorem inputs_relink {name : String} (h : name ∉ stackSlots ∨ b.opcode ∉ stackHolders) :
    (b.relink u below).inputs.get? name = b.inputs.get? name := by
  unfold relink
  dsimp only
  split
  · rename_i hholds
    have hname := h.resolve_right (not_not_intro hholds)
    simp only [Table.get?_map, if_neg hname, Option.map_id_fun', id]
  · rfl

theorem isMenu_relink : Compile.isMenu (b.relink u below) = Compile.isMenu b := by
  unfold relink Compile.isMenu
  dsimp only
  split
  · unfold Table.map
    rw [List.isEmpty_map]
  · rfl

/-- What a block holds leads past the other one, too. -/
theorem substack_relink {slot : String} (hslot : slot ∈ stackSlots)
    (hholds : b.opcode ∈ stackHolders) :
    Compile.Block.substack? (b.relink u below) slot =
      BlockScript.relink u below (Compile.Block.substack? b slot) := by
  unfold relink Compile.Block.substack?
  dsimp only
  rw [if_pos hholds]
  simp only [Table.get?_map, if_pos hslot]
  cases b.inputs.get? slot with
  | none => rfl
  | some input =>
    cases input with
    | block id =>
      by_cases hid : id = u
      · subst hid
        simp only [Option.map_some, Input.relink, if_true, BlockScript.relink]
        cases below <;> rfl
      · simp [Input.relink, BlockScript.relink, hid]
    | _ => rfl

end Block

namespace Compile

/-! ## 2. The opcodes that are known -/

/-- Moves and turns. -/
def motionOpcodes : List String :=
  ["motion_movesteps", "motion_turnright", "motion_turnleft", "motion_goto", "motion_gotoxy",
    "motion_glidesecstoxy", "motion_glideto", "motion_pointindirection", "motion_pointtowards",
    "motion_changexby", "motion_setx", "motion_changeyby", "motion_sety", "motion_ifonedgebounce",
    "motion_setrotationstyle"]

/-- Appearance. -/
def looksOpcodes : List String :=
  ["looks_say", "looks_think", "looks_sayforsecs", "looks_thinkforsecs", "looks_switchcostumeto",
    "looks_nextcostume", "looks_switchbackdropto", "looks_switchbackdroptoandwait",
    "looks_nextbackdrop", "looks_changesizeby", "looks_setsizeto", "looks_changeeffectby",
    "looks_seteffectto", "looks_cleargraphiceffects", "looks_show", "looks_hide",
    "looks_gotofrontback", "looks_goforwardbackwardlayers"]

/-- Sounds. -/
def soundOpcodes : List String :=
  ["sound_play", "sound_playuntildone", "sound_stopallsounds", "sound_setvolumeto",
    "sound_changevolumeby"]

/-- Messages, control flow, clones and questions. -/
def controlOpcodes : List String :=
  ["event_broadcast", "event_broadcastandwait", "control_wait", "control_repeat", "control_forever",
    "control_if", "control_if_else", "control_wait_until", "control_repeat_until", "control_while",
    "control_stop", "control_create_clone_of", "control_delete_this_clone", "sensing_askandwait",
    "sensing_resettimer"]

/-- Variables and lists. -/
def dataOpcodes : List String :=
  ["data_setvariableto", "data_changevariableby", "data_addtolist", "data_deleteoflist",
    "data_deletealloflist", "data_insertatlist", "data_replaceitemoflist"]

/-- Drawing. -/
def penOpcodes : List String :=
  ["pen_clear", "pen_stamp", "pen_penDown", "pen_penUp", "pen_setPenColorToColor",
    "pen_changePenSizeBy", "pen_setPenSizeTo"]

/-- The opcodes of all statement blocks. -/
def statementOpcodes : List String :=
  "procedures_call" :: (motionOpcodes ++ looksOpcodes ++ soundOpcodes ++ controlOpcodes ++
    dataOpcodes ++ penOpcodes)

namespace Command

variable {s : Command} {opcode : String}

theorem motion?_eq_none : s.motion? opcode = none ↔ opcode ∉ motionOpcodes := by
  unfold motion?
  split
  case h_16 => simp_all [motionOpcodes]
  all_goals simp [motionOpcodes]

theorem looks?_eq_none : s.looks? opcode = none ↔ opcode ∉ looksOpcodes := by
  unfold looks?
  split
  case h_19 => simp_all [looksOpcodes]
  all_goals simp [looksOpcodes]

theorem sound?_eq_none : s.sound? opcode = none ↔ opcode ∉ soundOpcodes := by
  unfold sound?
  split
  case h_6 => simp_all [soundOpcodes]
  all_goals simp [soundOpcodes]

theorem control?_eq_none : s.control? opcode = none ↔ opcode ∉ controlOpcodes := by
  unfold control?
  split
  case h_16 => simp_all [controlOpcodes]
  all_goals simp [controlOpcodes]

theorem data?_eq_none : s.data? opcode = none ↔ opcode ∉ dataOpcodes := by
  unfold data?
  split
  case h_8 => simp_all [dataOpcodes]
  all_goals simp [dataOpcodes]

theorem pen?_eq_none : s.pen? opcode = none ↔ opcode ∉ penOpcodes := by
  unfold pen?
  split
  case h_8 => simp_all [penOpcodes]
  all_goals simp [penOpcodes]

/-- **A block becomes nothing just if its opcode is unknown.** -/
theorem compile?_eq_none : s.compile? = none ↔ s.block.opcode ∉ statementOpcodes := by
  unfold compile? statementOpcodes
  dsimp only
  split
  · rename_i hcall
    simp [hcall]
  · rename_i hcall
    simp only [Option.orElse_eq_orElse, Option.orElse_eq_or, Option.or_eq_none_iff, motion?_eq_none,
      looks?_eq_none, sound?_eq_none, control?_eq_none, data?_eq_none, pen?_eq_none,
      List.mem_cons, List.mem_append, hcall, false_or, not_or, and_assoc]

end Command

/-! ## 3. Blocks that differ in where they lead -/

theorem bind_eq_ok {α β : Type} {x : Fresh α} {f : α → Fresh β} {n : Label} {r : β × Label} :
    (x >>= f) n = .ok r ↔ ∃ a m, x n = .ok (a, m) ∧ f a m = .ok r := by
  show (x n >>= fun q => f q.1 q.2) = .ok r ↔ _
  cases x n with
  | error e => simp [Bind.bind, Except.bind]
  | ok q => simp [Bind.bind, Except.bind, Prod.ext_iff]

/-- Two computations give the same, if they give anything. -/
def Agrees {α : Type} (x y : Fresh α) : Prop := ∀ n r, x n = .ok r ↔ y n = .ok r

namespace Agrees

variable {α β : Type} {x y : Fresh α}

theorem rfl : Agrees x x := fun _ _ => Iff.rfl

theorem of_eq (h : x = y) : Agrees x y := h ▸ rfl

theorem bind {f g : α → Fresh β} (hx : Agrees x y) (hf : ∀ a, Agrees (f a) (g a)) :
    Agrees (x >>= f) (y >>= g) := by
  intro n r
  simp only [bind_eq_ok, hx n, hf _ _ r]

end Agrees

/-- Contexts of two scripts that differ in their blocks only. -/
structure Context.Twin (c c' : Context) : Prop where
  costumes : c'.target.costumes = c.target.costumes
  sounds : c'.target.sounds = c.target.sounds
  backdrops : c'.backdrops = c.backdrops
  resolve : ∀ k name id, c'.scope.resolve k name id = c.scope.resolve k name id
  params : c'.scope.params = c.scope.params
  procedures : c'.procedures = c.procedures
  index : c'.index = c.index
  warp : c'.warp = c.warp
  procedure : c'.procedure = c.procedure

/-- Blocks that differ only in the block below them, and in the stacks that they hold. -/
structure Site.Twin (s s' : Site) : Prop where
  context : s.context.Twin s'.context
  opcode : s'.block.opcode = s.block.opcode
  fields : s'.block.fields = s.block.fields
  mutation : s'.block.mutation = s.block.mutation
  input : ∀ name slot, name ∉ stackSlots ∨ s.block.opcode ∉ stackHolders →
    s'.input name slot = s.input name slot

namespace Site.Twin

variable {s s' : Site} (h : s.Twin s')

include h

theorem field (name : String) : s'.field name = s.field name := by
  unfold Site.field Block.field?
  rw [h.fields]

theorem reference (k : Kind) (name : String) : s'.reference k name = s.reference k name := by
  unfold Site.reference
  simp only [h.fields, h.context.resolve]

theorem argument (name : String) :
    s'.context.scope.argument? name = s.context.scope.argument? name := by
  unfold Scope.argument?
  rw [h.context.params]

theorem number {name : String} (hname : name ∉ stackSlots) : s'.number name = s.number name :=
  h.input _ _ (.inl hname)

theorem text {name : String} (hname : name ∉ stackSlots) : s'.text name = s.text name :=
  h.input _ _ (.inl hname)

theorem boolean {name : String} (hname : name ∉ stackSlots) : s'.boolean name = s.boolean name :=
  h.input _ _ (.inl hname)

theorem any {name : String} (hname : name ∉ stackSlots) : s'.any name = s.any name :=
  h.input _ _ (.inl hname)

theorem asset {name : String} (hname : name ∉ stackSlots) (names : List String) :
    s'.asset name names = s.asset name names := by
  unfold Site.asset
  rw [h.any hname]

theorem sensor (opcode : String) : Reporter.sensor? s' opcode = Reporter.sensor? s opcode := by
  unfold Reporter.sensor?
  simp only [h.field]

/-- Reporters see no difference. -/
theorem reporter : Reporter.compile s' = Reporter.compile s := by
  unfold Reporter.compile Reporter.operator? Reporter.data? Reporter.sensing? Reporter.arithmetic
    Reporter.relation
  simp (disch := decide) only [h.opcode, h.number, h.text, h.boolean, h.any, h.field, h.reference,
    h.argument, h.sensor]

end Site.Twin

/-- Statement blocks that differ only in the block below them, and in the stacks that they hold, of
    which those that matter become the same. -/
structure Command.Twin (s s' : Command) : Prop extends s.toSite.Twin s'.toSite where
  substack : s.block.opcode ∈ stackHolders → ∀ slot ∈ stackSlots,
    Agrees (s'.substack slot) (s.substack slot)

namespace Command.Twin

variable {s s' : Command} (h : s.Twin s') (opcode : String)

include h

theorem motion : s'.motion? opcode = s.motion? opcode := by
  unfold Command.motion?
  simp (disch := decide) only [h.number, h.text, h.field]

theorem looks : s'.looks? opcode = s.looks? opcode := by
  unfold Command.looks? Command.speechFor Command.effect
  simp (disch := decide) only [h.number, h.any, h.field, h.asset, h.context.costumes,
    h.context.backdrops]

theorem sound : s'.sound? opcode = s.sound? opcode := by
  unfold Command.sound?
  simp (disch := decide) only [h.number, h.asset, h.context.sounds]

theorem data : s'.data? opcode = s.data? opcode := by
  unfold Command.data?
  simp (disch := decide) only [h.number, h.any, h.reference]

theorem pen : s'.pen? opcode = s.pen? opcode := by
  have hcolor : s'.input "COLOR" .color = s.input "COLOR" .color := h.input _ _ (.inl (by decide))
  unfold Command.pen?
  simp (disch := decide) only [h.number, hcolor]

theorem call (hcall : s.block.opcode ∉ stackHolders) : s'.call = s.call := by
  have hany (name : String) : s'.any name = s.any name := h.input _ _ (.inr hcall)
  unfold Command.call Context.procedureNamed?
  simp only [h.mutation, h.context.index, h.context.procedures, hany]

theorem control (hopcode : opcode ∉ stackHolders) : s'.control? opcode = s.control? opcode := by
  unfold Command.control? Command.stop
  split
  case h_4 | h_5 | h_6 | h_7 | h_9 | h_10 => exact absurd (by decide) hopcode
  all_goals
    simp (disch := decide) only [h.number, h.text, h.boolean, h.field, h.context.procedure]

theorem repeated (times : Expr) (body : List Stmt) :
    s'.repeated times body = s.repeated times body := by
  unfold Command.repeated Command.native
  rw [h.context.warp]

theorem endless (body : List Stmt) : s'.endless body = s.endless body := by
  unfold Command.endless Command.native
  rw [h.context.warp]

theorem conditional (cond : Expr) (body : List Stmt) :
    s'.conditional cond body = s.conditional cond body := by
  unfold Command.conditional Command.native
  rw [h.context.warp]

omit h in
/-- The blocks that hold stacks are all of one family. -/
theorem compile_holder (hholds : s.block.opcode ∈ stackHolders) :
    s.compile = (s.control? s.block.opcode).getD (return []) := by
  unfold Command.compile Command.compile?
  generalize s.block.opcode = opcode at hholds
  simp only [stackHolders, List.mem_cons, List.not_mem_nil, or_false] at hholds
  rcases hholds with rfl | rfl | rfl | rfl | rfl | rfl <;> rfl

/-- Blocks that hold stacks become the same if these do. -/
theorem agrees_holder (hholds : s.block.opcode ∈ stackHolders) : Agrees s'.compile s.compile := by
  have hsub := h.substack hholds "SUBSTACK" (by decide)
  have hsub2 := h.substack hholds "SUBSTACK2" (by decide)
  have hcond : s'.boolean "CONDITION" = s.boolean "CONDITION" := h.boolean (by decide)
  have hholds' : s'.block.opcode ∈ stackHolders := h.opcode ▸ hholds
  rw [compile_holder hholds, compile_holder hholds', h.opcode]
  generalize s.block.opcode = opcode at hholds
  simp only [stackHolders, List.mem_cons, List.not_mem_nil, or_false] at hholds
  rcases hholds with rfl | rfl | rfl | rfl | rfl | rfl
  · refine .bind (.of_eq ?_) fun times => .bind hsub fun body => .of_eq (h.repeated times body)
    rw [h.number (by decide)]
  · exact .bind hsub fun body => .of_eq (h.endless body)
  · refine .bind (.of_eq ?_) fun cond => .bind hsub fun body => .rfl
    rw [hcond]
  · refine .bind (.of_eq ?_) fun cond => .bind hsub fun yes => .bind hsub2 fun no => .rfl
    rw [hcond]
  · refine .bind (.of_eq ?_) fun cond => .bind hsub fun body => .of_eq (h.conditional _ body)
    rw [hcond]
  · refine .bind (.of_eq ?_) fun cond => .bind hsub fun body => .of_eq (h.conditional cond body)
    rw [hcond]

/-- **Statement blocks become the same**, whatever their opcode. -/
theorem agrees : Agrees s'.compile s.compile := by
  by_cases hholds : s.block.opcode ∈ stackHolders
  · exact h.agrees_holder hholds
  · refine .of_eq ?_
    unfold Command.compile Command.compile?
    simp only [h.opcode, h.call hholds, h.motion, h.looks, h.sound, h.control _ hholds, h.data,
      h.pen]

end Command.Twin

/-! ## 4. Chains that have an end -/

/-- The blocks of a stack that has an end, in order. -/
inductive Chain (t : TargetData) : Option String → List (String × Block) → Prop
  | nil : Chain t none []
  | gone {id : String} (h : t.block? id = none) : Chain t (some id) []
  | cons {id : String} {b : Block} {rest : List (String × Block)} (h : t.block? id = some b)
      (hrest : Chain t b.next rest) : Chain t (some id) ((id, b) :: rest)

namespace Chain

variable {t : TargetData} {first : Option String} {bs : List (String × Block)}

/-- There is one chain at most. -/
theorem unique (h : Chain t first bs) {bs' : List (String × Block)} (h' : Chain t first bs') :
    bs' = bs := by
  induction h generalizing bs' with
  | nil =>
    cases h'
    rfl
  | gone h =>
    cases h' with
    | gone => rfl
    | cons hb => cases h.symm.trans hb
  | cons h hrest ih =>
    cases h' with
    | gone hb => cases h.symm.trans hb
    | cons hb hrest' =>
      cases h.symm.trans hb
      rw [ih hrest']

/-- From each block of a chain on, the rest of it is one. -/
theorem suffix (h : Chain t first bs) {id : String} (hid : id ∈ bs.map (·.1)) :
    ∃ rest, Chain t (some id) rest ∧ rest.length ≤ bs.length := by
  induction h with
  | nil | gone => cases hid
  | @cons id' b rest h hrest ih =>
    rcases List.mem_cons.mp hid with heq | hid
    · cases heq
      exact ⟨_, .cons h hrest, Nat.le_refl _⟩
    · obtain ⟨rest', hchain, hlen⟩ := ih hid
      exact ⟨rest', hchain, Nat.le_succ_of_le hlen⟩

/-- No block comes twice: the chain from there on would be shorter than itself. -/
theorem nodup (h : Chain t first bs) : (bs.map (·.1)).Nodup := by
  induction h with
  | nil | gone => exact List.nodup_nil
  | @cons id b rest h hrest ih =>
    refine List.nodup_cons.mpr ⟨fun hid => ?_, ih⟩
    obtain ⟨rest', hchain, hlen⟩ := hrest.suffix hid
    rw [(Chain.cons h hrest).unique hchain] at hlen
    exact Nat.not_succ_le_self _ hlen

theorem block? (h : Chain t first bs) {b : String × Block} (hb : b ∈ bs) :
    t.block? b.1 = some b.2 := by
  induction h with
  | nil | gone => cases hb
  | cons h hrest ih =>
    rcases List.mem_cons.mp hb with rfl | hb
    · exact h
    · exact ih hb

theorem length_le (h : Chain t first bs) : bs.length ≤ t.blocks.entries.length := by
  have hle : (bs.map (·.1)).length ≤ t.blocks.entries.length := by
    refine length_le_of_blocks h.nodup fun id hid => ?_
    obtain ⟨b, hb, rfl⟩ := List.mem_map.mp hid
    exact ⟨b.2, h.block? hb⟩
  rwa [List.length_map] at hle

/-- Whoever walks along a chain comes to its end. -/
theorem walk (h : Chain t first bs) {fuel : Nat} {seen : List String}
    (hseen : ∀ id ∈ seen, id ∉ bs.map (·.1) ∧ ∃ b, t.block? id = some b)
    (hfuel : bs.length ≤ fuel) : Stack.walk t (fuel + 1) seen first = ⟨bs, none⟩ := by
  induction h generalizing fuel seen with
  | nil => rfl
  | @gone id h =>
    have hnew : id ∉ seen := by
      intro hid
      obtain ⟨-, b, hb⟩ := hseen id hid
      cases h.symm.trans hb
    unfold Stack.walk
    rw [if_neg hnew, h]
  | @cons id b rest h hrest ih =>
    have hnew : id ∉ seen := fun hid => (hseen id hid).1 List.mem_cons_self
    obtain ⟨hid, -⟩ := List.nodup_cons.mp (Chain.cons h hrest).nodup
    have hseen' : ∀ j ∈ id :: seen, j ∉ rest.map (·.1) ∧ ∃ b, t.block? j = some b := by
      refine List.forall_mem_cons.mpr ⟨⟨hid, b, h⟩, fun j hj => ?_⟩
      exact ⟨fun hj' => (hseen j hj).1 (List.mem_cons_of_mem _ hj'), (hseen j hj).2⟩
    obtain ⟨fuel, rfl⟩ := Nat.exists_eq_add_one_of_ne_zero (Nat.ne_zero_of_lt hfuel)
    have hwalk := ih hseen' (Nat.le_of_succ_le_succ hfuel)
    unfold Stack.walk
    rw [if_neg hnew, h]
    dsimp only
    rw [hwalk]

/-- A walk that comes to an end is along a chain. -/
theorem of_walk {fuel : Nat} {seen : List String}
    (h : (Stack.walk t fuel seen first).fault = none) :
    Chain t first (Stack.walk t fuel seen first).blocks := by
  induction fuel generalizing seen first with
  | zero =>
    cases first with
    | none => exact .nil
    | some id => cases h
  | succ fuel ih =>
    cases first with
    | none => exact .nil
    | some id =>
      unfold Stack.walk at h ⊢
      split at h
      · cases h
      · rename_i hid
        rw [if_neg hid]
        split at h
        · rename_i hb
          exact .gone hb
        · rename_i hb
          exact .cons hb (ih h)

/-- **The compiler walks along a chain, or fails.** -/
theorem from_eq (h : Chain t first bs) : Stack.from t first = ⟨bs, none⟩ :=
  h.walk (fun _ hid => absurd hid List.not_mem_nil) h.length_le

end Chain

/-- The statements of some blocks, one after the other. -/
def row (block : String → Block → Fresh (List Stmt)) (bs : List (String × Block)) :
    Fresh (List Stmt) := do
  return (← bs.mapM fun b => block b.1 b.2).flatten

theorem row_nil (block : String → Block → Fresh (List Stmt)) : row block [] = return [] := by
  unfold row
  rw [List.mapM_nil, pure_bind, List.flatten_nil]

theorem row_cons (block : String → Block → Fresh (List Stmt)) (b : String × Block)
    (rest : List (String × Block)) :
    row block (b :: rest) = do return (← block b.1 b.2) ++ (← row block rest) := by
  unfold row
  simp only [List.mapM_cons, bind_assoc, pure_bind, List.flatten_cons]

theorem compileWith_eq_ok {t : TargetData} {first : Option String}
    {block : String → Block → Fresh (List Stmt)} {n : Label} {r : List Stmt × Label} :
    (Stack.from t first).compileWith block n = .ok r ↔
      ∃ bs, Chain t first bs ∧ row block bs n = .ok r := by
  constructor
  · intro h
    cases hfault : (Stack.from t first).fault with
    | none =>
      refine ⟨_, .of_walk hfault, ?_⟩
      unfold Stack.compileWith at h
      rw [hfault] at h
      exact h
    | some e =>
      unfold Stack.compileWith at h
      rw [hfault] at h
      obtain ⟨parts, m, -, herror⟩ := bind_eq_ok.mp h
      cases herror
  · rintro ⟨bs, hchain, hrow⟩
    rw [hchain.from_eq]
    exact hrow

/-! ## 5. Chains that lead past a block -/

section Bypass

variable {t : TargetData} {u : String} {first : Option String} {bs : List (String × Block)}

/-- The blocks of a chain apart from one, with links that lead past it. -/
def past (t : TargetData) (u : String) (bs : List (String × Block)) : List (String × Block) :=
  (bs.filter fun b => b.1 != u).map fun b => (b.1, b.2.relink u (t.below u))

theorem past_cons_self (b : Block) (rest : List (String × Block)) :
    past t u ((u, b) :: rest) = past t u rest := by
  simp [past]

theorem past_cons_of_ne {id : String} (hid : id ≠ u) (b : Block) (rest : List (String × Block)) :
    past t u ((id, b) :: rest) = (id, b.relink u (t.below u)) :: past t u rest := by
  simp [past, hid]

theorem relink_of_ne {link below : Option String} (h : link ≠ some u) :
    relink u below link = link := if_neg h

theorem relink_self {below : Option String} : relink u below (some u) = below := if_pos rfl

/-- The block is on no chain after it was left out. -/
theorem Chain.bypass (hu : t.below u ≠ some u) (h : Chain t first bs) :
    Chain (t.bypass u) (relink u (t.below u) first) (past t u bs) := by
  induction h with
  | nil => exact .nil
  | @gone id h =>
    by_cases hid : id = u
    · subst hid
      have hbelow : t.below id = none := by rw [TargetData.below, h]; rfl
      rw [relink_self, hbelow]
      exact .nil
    · rw [relink_of_ne (by simpa using hid)]
      exact .gone (by rw [TargetData.block?_bypass, h]; rfl)
  | @cons id b rest h hrest ih =>
    by_cases hid : id = u
    · subst hid
      have hbelow : t.below id = b.next := by rw [TargetData.below, h]; rfl
      rw [relink_self, past_cons_self]
      rw [← hbelow, relink_of_ne hu] at ih
      exact ih
    · rw [relink_of_ne (by simpa using hid), past_cons_of_ne hid]
      exact .cons (by rw [TargetData.block?_bypass, h]; rfl) ih

/-- If there is an end below a block, then also from the block on. -/
theorem Chain.exists_of_below (h : ∃ bs, Chain t (t.below u) bs) : ∃ bs, Chain t (some u) bs := by
  obtain ⟨bs, h⟩ := h
  cases hb : t.block? u with
  | none => exact ⟨_, .gone hb⟩
  | some b =>
    rw [TargetData.below, hb] at h
    exact ⟨_, .cons hb h⟩

/-- If a link that leads past a block leads to an end, then so does the link that it was. -/
theorem Chain.exists_of_relink (h : ∃ bs, Chain t (relink u (t.below u) first) bs) :
    ∃ bs, Chain t first bs := by
  by_cases hfirst : first = some u
  · rw [hfirst, relink_self] at h
    rw [hfirst]
    exact exists_of_below h
  · rwa [relink_of_ne hfirst] at h

/-- Where there is an end after the block was left out, there was one before. -/
theorem Chain.exists_of_bypass (h : Chain (t.bypass u) first bs) : ∃ bs, Chain t first bs := by
  induction h with
  | nil => exact ⟨_, .nil⟩
  | gone h =>
    rw [TargetData.block?_bypass, Option.map_eq_none_iff] at h
    exact ⟨_, .gone h⟩
  | cons h hrest ih =>
    rw [TargetData.block?_bypass, Option.map_eq_some_iff] at h
    obtain ⟨b, hb, rfl⟩ := h
    obtain ⟨rest, hrest⟩ := exists_of_relink ih
    exact ⟨_, .cons hb hrest⟩

end Bypass

/-! ## 6. Scripts -/

/-- The contexts of a script, in a target and in the one in which a block is left out. -/
structure Context.Bypass (u : String) (c c' : Context) : Prop extends c.Twin c' where
  target : c'.target = c.target.bypass u

/-- A block that becomes nothing, and does not lead back to itself at once. -/
structure Void (t : TargetData) (u : String) : Prop where
  below : t.below u ≠ some u
  opcode : ∀ b, t.block? u = some b → b.opcode ∉ statementOpcodes

section Scripts

variable {u : String} {c c' : Context} (hc : c.Bypass u c')

include hc

theorem depth_bypass : c'.depth = c.depth := by
  unfold Context.depth
  rw [hc.target]
  exact congrArg (· + 1) (Table.length_entries_map ..)

theorem inputIn_bypass {reporter reporter' : Path → Block → Except Error Expr}
    (hrep : ∀ path b, reporter' path (b.relink u (c.target.below u)) = reporter path b)
    (path : Path) (b : Block) {name : String}
    (hname : name ∉ stackSlots ∨ b.opcode ∉ stackHolders) (slot : Slot) :
    inputIn reporter' c' path (b.relink u (c.target.below u)) name slot =
      inputIn reporter c path b name slot := by
  have hinput (input : Option Input) :
      inputIn? reporter' c' path input = inputIn? reporter c path input := by
    unfold inputIn?
    simp only [hc.resolve, hc.target, TargetData.block?_bypass]
    cases input with
    | none => rfl
    | some input =>
      cases input with
      | block id =>
        dsimp only
        cases hb : c.target.block? id with
        | none => rfl
        | some b' =>
          simp only [Option.map_some, Block.isMenu_relink, hrep]
          rfl
      | _ => rfl
  unfold inputIn
  rw [b.inputs_relink hname, hinput]

/-- Reporters become the same. -/
theorem reporterAt_bypass (depth : Nat) (path : Path) (b : Block) :
    reporterAt c' depth path (b.relink u (c.target.below u)) = reporterAt c depth path b := by
  induction depth generalizing path b with
  | zero => rfl
  | succ depth ih =>
    have htwin : Site.Twin ⟨c, b, inputIn (reporterAt c depth) c path b⟩
        ⟨c', b.relink u (c.target.below u), inputIn (reporterAt c' depth) c' path _⟩ :=
      ⟨hc.toTwin, rfl, rfl, rfl, fun name slot hname => inputIn_bypass hc ih path b hname slot⟩
    exact htwin.reporter

/-- A block becomes the same, if the stacks that it holds do. -/
theorem twin_commandAt {depth : Nat} {path : Path} (b : Block)
    (hstack : ∀ first, Agrees (stackAt c' depth path (relink u (c.target.below u) first))
      (stackAt c depth path first)) :
    (commandAt c depth path b).Twin (commandAt c' depth path (b.relink u (c.target.below u))) := by
  refine ⟨⟨hc.toTwin, rfl, rfl, rfl, fun name slot hname => ?_⟩, fun hholds slot hslot => ?_⟩
  · have hdepth := depth_bypass hc
    show inputIn (reporterAt c' c'.depth) c' _ _ _ _ = inputIn (reporterAt c c.depth) c _ _ _ _
    rw [hdepth]
    exact inputIn_bypass hc (reporterAt_bypass hc _) path b hname slot
  · show Agrees (stackAt c' depth path _) (stackAt c depth path _)
    rw [b.substack_relink hslot hholds]
    exact hstack _

/-- The statements of a block of a stack at the end of a path. -/
def blockAt (c : Context) (depth : Nat) (path : Path) (id : String) (b : Block) :
    Fresh (List Stmt) := do
  (commandAt c depth (← path.enter id) b).compile

omit hc in
/-- What is void takes no labels and becomes nothing. -/
theorem blockAt_void {depth : Nat} {path : Path} {b : Block} (hpath : u ∉ path)
    (hopcode : b.opcode ∉ statementOpcodes) : blockAt c depth path u b = return [] := by
  have henter : path.enter u = .ok (u :: path) := if_neg hpath
  unfold blockAt
  rw [henter]
  show (commandAt c depth (u :: path) b).compile = return []
  unfold Command.compile
  rw [Command.compile?_eq_none.mpr hopcode]
  rfl

/-- Any other block becomes the same. -/
theorem agrees_blockAt {depth : Nat} {path : Path} {id : String} (b : Block)
    (hstack : ∀ first, Agrees (stackAt c' depth (id :: path) (relink u (c.target.below u) first))
      (stackAt c depth (id :: path) first)) :
    Agrees (blockAt c' depth path id (b.relink u (c.target.below u)))
      (blockAt c depth path id b) := by
  unfold blockAt Path.enter
  split
  · intro n r
    constructor <;> (intro h; cases h)
  · exact (twin_commandAt hc b hstack).agrees

/-- The blocks of a chain become the same as those that are left of it. -/
theorem agrees_row {depth : Nat} {path : Path} (hpath : u ∉ path)
    (hvoid : ∀ b, c.target.block? u = some b → b.opcode ∉ statementOpcodes)
    (hstack : ∀ path first, u ∉ path →
      Agrees (stackAt c' depth path (relink u (c.target.below u) first))
        (stackAt c depth path first)) {bs : List (String × Block)}
    (hbs : ∀ b ∈ bs, c.target.block? b.1 = some b.2) :
    Agrees (row (blockAt c' depth path) (past c.target u bs)) (row (blockAt c depth path) bs) := by
  induction bs with
  | nil =>
    rw [row_nil]
    exact .of_eq (row_nil _)
  | cons b rest ih =>
    obtain ⟨hb, hrest⟩ := List.forall_mem_cons.mp hbs
    obtain ⟨id, b⟩ := b
    rw [row_cons]
    by_cases hid : id = u
    · subst hid
      rw [past_cons_self, blockAt_void hpath (hvoid b hb), pure_bind]
      simp only [List.nil_append, bind_pure]
      exact ih hrest
    · rw [past_cons_of_ne hid, row_cons]
      have hblock := agrees_blockAt hc b fun first =>
        hstack (id :: path) first (List.not_mem_cons_of_ne_of_not_mem (Ne.symm hid) hpath)
      exact .bind hblock fun part => .bind (ih hrest) fun parts => .rfl

/-- **Stacks become the same**, however deep they are nested. A block that becomes nothing has
    nothing compiled inside it, so it is never on the path. -/
theorem agrees_stackAt (hvoid : Void c.target u) {depth : Nat} {path : Path}
    {first : Option String} (hpath : u ∉ path) :
    Agrees (stackAt c' depth path (relink u (c.target.below u) first))
      (stackAt c depth path first) := by
  induction depth generalizing path first with
  | zero => exact .of_eq rfl
  | succ depth ih =>
    have hrow {bs : List (String × Block)} (h : Chain c.target first bs) :
        Agrees (row (blockAt c' depth path) (past c.target u bs))
          (row (blockAt c depth path) bs) :=
      agrees_row hc hpath hvoid.opcode (fun _ _ => ih) fun _ => h.block?
    intro n r
    have hleft : stackAt c' (depth + 1) path (relink u (c.target.below u) first) n = .ok r ↔
        ∃ bs, Chain (c.target.bypass u) (relink u (c.target.below u) first) bs ∧
          row (blockAt c' depth path) bs n = .ok r := by
      rw [← hc.target]
      exact compileWith_eq_ok
    have hright : stackAt c (depth + 1) path first n = .ok r ↔
        ∃ bs, Chain c.target first bs ∧ row (blockAt c depth path) bs n = .ok r :=
      compileWith_eq_ok
    rw [hleft, hright]
    constructor
    · rintro ⟨bs', hchain', hok⟩
      obtain ⟨bs, hchain⟩ := Chain.exists_of_relink hchain'.exists_of_bypass
      cases (hchain.bypass hvoid.below).unique hchain'
      exact ⟨bs, hchain, (hrow hchain n r).mp hok⟩
    · rintro ⟨bs, hchain, hok⟩
      exact ⟨_, hchain.bypass hvoid.below, (hrow hchain n r).mpr hok⟩

theorem agrees_stackOf (hvoid : Void c.target u) (first : Option String) :
    Agrees (stackOf c' (relink u (c.target.below u) first)) (stackOf c first) := by
  unfold stackOf
  rw [depth_bypass hc]
  exact agrees_stackAt hc hvoid List.not_mem_nil

theorem bypass_enter (id : ProcId) (p : Procedure) : (c.enter id p).Bypass u (c'.enter id p) :=
  ⟨⟨hc.costumes, hc.sounds, hc.backdrops, hc.resolve, rfl, hc.procedures, hc.index, rfl, rfl⟩,
    hc.target⟩

/-- The script below a hat becomes the same. -/
theorem agrees_script (hvoid : Void c.target u) (trigger : Trigger) (hat : Block) :
    Agrees (script c' trigger (hat.relink u (c.target.below u))) (script c trigger hat) := by
  cases trigger with
  | event e =>
    refine .bind .rfl fun entry => .bind (agrees_stackOf hc hvoid hat.next) fun body => .rfl
  | procedure id =>
    unfold script
    dsimp only
    rw [hc.procedures]
    refine .bind ?_ fun body => .rfl
    exact agrees_stackOf (bypass_enter hc id _) hvoid hat.next

end Scripts

/-! ## 7. Targets -/

section Targets

variable (t : TargetData) (u : String)

theorem signature?_bypass (b : Block) :
    signature? (t.bypass u) (b.relink u (t.below u)) = signature? t b := by
  have hslot : Block.substack? (b.relink u (t.below u)) "custom_block" =
      Block.substack? b "custom_block" := by
    unfold Block.substack?
    rw [b.inputs_relink (.inl (by decide))]
  unfold signature?
  simp only [hslot, TargetData.block?_bypass]
  cases Block.substack? b "custom_block" with
  | none => rfl
  | some id => cases hb : t.block? id <;> simp [hb, Block.relink]

/-- The same procedures are defined. -/
theorem definitions_bypass : definitions (t.bypass u) = definitions t := by
  unfold definitions
  rw [TargetData.topLevel_bypass, List.foldl_map]
  congr 1
  funext defs hat
  unfold addDefinition
  simp only [signature?_bypass]
  rfl

/-- The same hats start scripts. -/
theorem hats_bypass :
    hats (t.bypass u) = (hats t).map fun hat => (hat.1, hat.2.relink u (t.below u)) := by
  unfold hats
  rw [TargetData.topLevel_bypass, List.filterMap_map, List.map_filterMap, definitions_bypass]
  refine List.filterMap_congr fun hat _ => ?_
  have htrigger : trigger? (definitions t) hat.1 (hat.2.relink u (t.below u)) =
      trigger? (definitions t) hat.1 hat.2 := rfl
  simp only [Function.comp_apply, htrigger, Option.map_map]
  rfl

theorem resolve_bypass (stage : Option TargetData) (k : Kind) (name : String)
    (id : Option String) :
    (Scope.of (t.bypass u) stage).resolve k name id = (Scope.of t stage).resolve k name id := by
  have hstage : (t.bypass u).isStage = t.isStage := rfl
  unfold Scope.of
  rw [hstage]
  cases t.isStage <;> cases k <;> rfl

theorem bypass_of (stage : Option TargetData) (procedures : List Procedure) :
    (Context.of t stage procedures).Bypass u (Context.of (t.bypass u) stage procedures) := by
  have hstage : (t.bypass u).isStage = t.isStage := rfl
  refine ⟨⟨rfl, rfl, ?_, resolve_bypass t u stage, ?_, rfl, rfl, rfl, rfl⟩, rfl⟩
  · unfold Context.of
    rw [hstage]
    cases t.isStage <;> rfl
  · unfold Context.of Scope.of
    rw [hstage]
    cases t.isStage <;> rfl

variable {t u}

theorem agrees_mapM {α β γ : Type} {f : α → Fresh β} {f' : γ → Fresh β} {g : α → γ} {l : List α}
    (h : ∀ a ∈ l, Agrees (f' (g a)) (f a)) : Agrees ((l.map g).mapM f') (l.mapM f) := by
  induction l with
  | nil =>
    rw [List.map_nil, List.mapM_nil, List.mapM_nil]
    exact .rfl
  | cons a rest ih =>
    obtain ⟨ha, hrest⟩ := List.forall_mem_cons.mp h
    rw [List.map_cons, List.mapM_cons, List.mapM_cons]
    exact .bind ha fun b => .bind (ih hrest) fun bs => .rfl

/-- The scripts of a target become the same. -/
theorem agrees_scripts (hvoid : Void t u) (stage : Option TargetData) :
    Agrees (scripts (t.bypass u) stage) (scripts t stage) := by
  unfold scripts
  dsimp only
  rw [definitions_bypass, hats_bypass]
  refine agrees_mapM fun hat _ => ?_
  exact agrees_script (bypass_of t u stage _) hvoid hat.1 hat.2

theorem compile_eq_ok (hvoid : Void t u) (stage : Option TargetData) (p : Program) :
    (t.bypass u).compile stage = .ok p ↔ t.compile stage = .ok p := by
  have hscripts := agrees_scripts hvoid stage (definitions t).length
  unfold TargetData.compile StateT.run
  dsimp only
  rw [definitions_bypass]
  cases hrun : scripts t stage (definitions t).length with
  | ok r => rw [(hscripts r).mpr hrun]
  | error e =>
    cases hrun' : scripts (t.bypass u) stage (definitions t).length with
    | ok r => cases hrun.symm.trans ((hscripts r).mp hrun')
    | error e' => constructor <;> (intro h; cases h)

/-- A target is compiled, or the project is at fault. -/
theorem exists_project_iff {stage : Option TargetData} :
    (∃ e, t.compile stage = .error (.project e)) ↔ ¬ ∃ p, t.compile stage = .ok p := by
  constructor
  · rintro ⟨e, he⟩ ⟨p, hp⟩
    cases he.symm.trans hp
  · intro h
    have hyields := yields_compile t stage
    generalize t.compile stage = result at h hyields
    cases hyields with
    | @ok p => exact absurd ⟨p, rfl⟩ h
    | error he =>
      obtain ⟨⟨e, rfl⟩, -⟩ := he
      exact ⟨e, rfl⟩

end Targets

/-- **A statement block with an unknown opcode becomes nothing.** If all links to it lead to the
    block below it instead, then the target is compiled to the same program, or the project is at
    fault just if it was before. -/
theorem compile_bypass {t : TargetData} {stage : Option TargetData} {u : String} {b : Block}
    (hu : t.block? u = some b) (hopcode : b.opcode ∉ statementOpcodes) (hnext : b.next ≠ some u) :
    (∀ p, (t.bypass u).compile stage = .ok p ↔ t.compile stage = .ok p) ∧
      ((∃ e, (t.bypass u).compile stage = .error (.project e)) ↔
        ∃ e, t.compile stage = .error (.project e)) := by
  have hbelow : t.below u = b.next := by
    rw [TargetData.below, hu]
    rfl
  have hvoid : Void t u := by
    refine ⟨hbelow ▸ hnext, fun b' hb' => ?_⟩
    cases hu.symm.trans hb'
    exact hopcode
  have hok := compile_eq_ok hvoid stage
  refine ⟨hok, ?_⟩
  rw [exists_project_iff, exists_project_iff]
  simp only [hok]

/-- A sprite that shows itself again and again, and once more at the end. A block about sound
    effects stands before that, in the loop and below it. -/
def showing : TargetData where
  name := "Showing"
  blocks := ⟨[
    ("n1", .block { opcode := "event_whenflagclicked", next := some "n2", topLevel := true }),
    ("n2", .block {
      opcode := "control_repeat", next := some "n3"
      inputs := ⟨[("SUBSTACK", .block "n3"), ("TIMES", .literal (.text "10"))], by decide⟩ }),
    ("n3", .block { opcode := "sound_cleareffects", next := some "n4" }),
    ("n4", .block { opcode := "looks_show" })], by decide⟩

theorem showing_bypass :
    showing.block? "n3" = some { opcode := "sound_cleareffects", next := some "n4" } ∧
      ∃ p, showing.compile none = .ok p ∧ (showing.bypass "n3").compile none = .ok p := by
  have hvoid : showing.block? "n3" = some { opcode := "sound_cleareffects", next := some "n4" } :=
    rfl
  refine ⟨hvoid, ?_⟩
  have hsome : (showing.compile none).isOk = true := by decide +kernel
  cases hp : showing.compile none with
  | ok p =>
    exact ⟨p, rfl, ((compile_bypass hvoid (by decide) (by decide)).1 p).mpr hp⟩
  | error e =>
    rw [hp] at hsome
    cases hsome

end Compile

end BlockScript
