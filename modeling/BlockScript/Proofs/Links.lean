import BlockScript.Proofs.Emission
import Mathlib.Logic.Relation

/-!
# Links between blocks

Blocks refer to the blocks below them and to those in their inputs. The compiler follows these
links, and fails only where they lead back to where they came from.

* `TargetData.Acyclic`: no block is reached from itself;
* `Excused`: the faults that there may be;
* `Leads`, `Way`: a path with what it leads to, and a path with where it ends;
* `emits_stackOf`: a stack is compiled to code of its script. In particular no bound on the length
  of paths is ever reached;
* `emitted_stackAt`, `emitted_commandAt`: whatever a stack or a block is compiled to, anywhere and
  however deep, is code of the script.
-/

namespace BlockScript

theorem Table.mem_of_get? {α : Type} {t : Table α} {name : String} {a : α}
    (h : t.get? name = some a) : (name, a) ∈ t.entries := by
  obtain ⟨l₁, l₂, hl, -⟩ := List.lookup_eq_some_iff.mp h
  rw [hl]
  exact List.mem_append_right _ List.mem_cons_self

namespace TargetData

/-- One block refers to another: as the next one of a stack, or as what fills an input. -/
def Link (t : TargetData) (a b : String) : Prop :=
  ∃ block, t.block? a = some block ∧ (block.next = some b ∨ .block b ∈ block.inputs.values)

/-- No block is reached from itself. -/
def Acyclic (t : TargetData) : Prop := ∀ id, ¬ Relation.TransGen t.Link id id

variable {t : TargetData}

theorem mem_names_of_block? {id : String} {b : Block} (h : t.block? id = some b) :
    id ∈ t.blocks.names := by
  obtain ⟨entry, hentry, -⟩ := Option.bind_eq_some_iff.mp h
  exact List.mem_map.mpr ⟨_, Table.mem_of_get? hentry, rfl⟩

theorem link_input {id other name : String} {b : Block} (hb : t.block? id = some b)
    (h : b.inputs.get? name = some (.block other)) : t.Link id other :=
  ⟨b, hb, .inr (List.mem_map.mpr ⟨_, Table.mem_of_get? h, rfl⟩)⟩

end TargetData

namespace Compile

open Script (Emitted)

/-- The project is at fault, and it is so because its links lead back somewhere. -/
def Excused (t : TargetData) (e : Error) : Prop := (∃ p, e = .project p) ∧ ¬ t.Acyclic

/-! ## 1. Paths -/

/-- A path of blocks that leads to a block, if there is one at its end. -/
structure Leads (t : TargetData) (path : Path) (last : Option String) : Prop where
  nodup : path.Nodup
  blocks : ∀ id ∈ path, ∃ b, t.block? id = some b
  links : ∀ id ∈ path, ∀ l ∈ last, Relation.TransGen t.Link id l

/-- A path of blocks, the last of which is at hand. -/
structure Way (t : TargetData) (path : Path) (id : String) : Prop where
  nodup : path.Nodup
  blocks : ∀ id ∈ path, ∃ b, t.block? id = some b
  links : ∀ p ∈ path, Relation.ReflTransGen t.Link p id

variable {t : TargetData} {path : Path} {id : String}

/-- A path is no longer than the table of blocks. -/
theorem length_le_of_blocks (hnodup : path.Nodup) (h : ∀ id ∈ path, ∃ b, t.block? id = some b) :
    path.length ≤ t.blocks.entries.length := by
  have hsub : path ⊆ t.blocks.names := fun id hid => by
    obtain ⟨b, hb⟩ := h id hid
    exact TargetData.mem_names_of_block? hb
  have hlen := hnodup.length_le_of_subset hsub
  rwa [Table.names, List.length_map] at hlen

theorem Leads.nil (t : TargetData) (last : Option String) : Leads t [] last :=
  ⟨List.nodup_nil, fun _ h => absurd h List.not_mem_nil, fun _ h => absurd h List.not_mem_nil⟩

/-- A path that leads to one of its own blocks shows a cycle. -/
theorem Leads.not_acyclic (h : Leads t path (some id)) (hid : id ∈ path) : ¬ t.Acyclic :=
  fun hac => hac id (h.links id hid id rfl)

/-- The block to which a path leads comes next on the way. -/
theorem Leads.way (h : Leads t path (some id)) (hid : id ∉ path) {b : Block}
    (hb : t.block? id = some b) : Way t (id :: path) id := by
  refine ⟨List.nodup_cons.mpr ⟨hid, h.nodup⟩, ?_, ?_⟩
  · exact List.forall_mem_cons.mpr ⟨⟨b, hb⟩, h.blocks⟩
  · exact List.forall_mem_cons.mpr ⟨.refl, fun p hp => (h.links p hp id rfl).to_reflTransGen⟩

theorem Way.leads (h : Way t path id) {next : Option String}
    (hlink : ∀ l ∈ next, t.Link id l) : Leads t path next :=
  ⟨h.nodup, h.blocks, fun p hp l hl => Relation.TransGen.tail' (h.links p hp) (hlink l hl)⟩

/-- To go on to the block to which a path leads fails only in a cycle. -/
theorem yields_enter (h : Leads t path (some id)) :
    Yields (Excused t) (fun way => way = id :: path ∧ id ∉ path) (path.enter id) := by
  unfold Path.enter
  split
  · rename_i hid
    exact .error ⟨⟨_, rfl⟩, h.not_acyclic hid⟩
  · rename_i hid
    exact .ok ⟨rfl, hid⟩

/-! ## 2. Stacks -/

/-- The blocks of a stack are reached from its first one, and it has an end unless its links lead
    back. -/
theorem walk_spec {fuel : Nat} {seen : List String} {first : Option String}
    (hlead : Leads t seen first) (hfuel : t.blocks.entries.length < fuel + seen.length) :
    (∀ e, (Stack.walk t fuel seen first).fault = some e → Excused t e) ∧
      ∀ b ∈ (Stack.walk t fuel seen first).blocks, t.block? b.1 = some b.2 ∧
        ∃ f, first = some f ∧ Relation.ReflTransGen t.Link f b.1 := by
  induction fuel generalizing seen first with
  | zero =>
    have hlen := length_le_of_blocks hlead.nodup hlead.blocks
    omega
  | succ fuel ih =>
    cases first with
    | none => exact ⟨nofun, fun _ h => absurd h List.not_mem_nil⟩
    | some id =>
      unfold Stack.walk
      split
      · rename_i hid
        refine ⟨fun e he => ?_, fun _ h => absurd h List.not_mem_nil⟩
        cases he
        exact ⟨⟨_, rfl⟩, hlead.not_acyclic hid⟩
      · rename_i hid
        split
        · exact ⟨nofun, fun _ h => absurd h List.not_mem_nil⟩
        · rename_i b hb
          have hnext : Leads t (id :: seen) b.next :=
            (hlead.way hid hb).leads fun l hl => ⟨b, hb, .inl hl⟩
          have hlen : t.blocks.entries.length < fuel + (id :: seen).length := by
            rw [List.length_cons]
            omega
          obtain ⟨hfault, hblocks⟩ := ih hnext hlen
          refine ⟨hfault, List.forall_mem_cons.mpr ⟨⟨hb, id, rfl, .refl⟩, fun b' hb' => ?_⟩⟩
          obtain ⟨hb'', f, hf, hreach⟩ := hblocks b' hb'
          exact ⟨hb'', id, rfl, .head ⟨b, hb, .inl hf⟩ hreach⟩

/-! ## 3. Reporters -/

variable {c : Context} {b : Block} {E : Error → Prop}

/-- An input is compiled to an expression of the script, if the reporter in it is. -/
theorem yields_inputIn {reporter : Path → Block → Except Error Expr}
    (hrep : ∀ name id' b', b.inputs.get? name = some (.block id') → c.target.block? id' = some b' →
      Yields E (fun way => Yields E c.Allows (reporter way b')) (path.enter id'))
    (name : String) (slot : Slot) : Yields E c.Allows (inputIn reporter c path b name slot) := by
  have hinput : Yields E (fun e => ∀ a ∈ e, c.Allows a)
      (inputIn? reporter c path (b.inputs.get? name)) := by
    unfold inputIn?
    split
    · exact .ok nofun
    · exact .ok nofun
    · exact .ok fun a ha => Option.some.inj ha ▸ trivial
    · exact .ok fun a ha => Option.some.inj ha ▸ trivial
    · exact .ok fun a ha => Option.some.inj ha ▸ trivial
    · exact .ok fun a ha => Option.some.inj ha ▸ trivial
    · rename_i other hother
      split
      · exact .ok nofun
      · rename_i b' hb'
        split
        · refine .ok fun a ha => ?_
          obtain ⟨f, -, rfl⟩ := Option.map_eq_some_iff.mp ha
          trivial
        · refine (hrep name other b' hother hb').bind fun way hway => hway.bind fun e he => ?_
          exact .ok fun a ha => Option.some.inj ha ▸ he
  unfold inputIn
  refine hinput.bind fun e he => ?_
  cases e with
  | none => exact .ok trivial
  | some a => exact .ok (Context.allows_cast (he a rfl) slot)

/-- The reporters in the inputs of a block are compiled to expressions of the script, if those to
    which the way leads are. -/
theorem Way.reporter {reporter : Path → Block → Except Error Expr}
    (hway : Way c.target path id) (hb : c.target.block? id = some b)
    (hrep : ∀ id' b', Way c.target (id' :: path) id' → c.target.block? id' = some b' →
      Yields (Excused c.target) c.Allows (reporter (id' :: path) b')) {name id' : String}
    {b' : Block} (hinput : b.inputs.get? name = some (.block id'))
    (hb' : c.target.block? id' = some b') :
    Yields (Excused c.target) (fun way => Yields (Excused c.target) c.Allows (reporter way b'))
      (path.enter id') := by
  have hlead : Leads c.target path (some id') :=
    hway.leads fun l hl => Option.some.inj hl ▸ TargetData.link_input hb hinput
  refine Yields.mono ?_ (yields_enter hlead)
  rintro _ ⟨rfl, hnew⟩
  exact hrep id' b' (hlead.way hnew hb') hb'

/-- **Reporters are compiled to expressions of the script**, however deep they are nested. -/
theorem yields_reporterAt (hc : c.Proper) {depth : Nat} (hway : Way c.target path id)
    (hb : c.target.block? id = some b)
    (hdepth : c.target.blocks.entries.length < depth + path.length) :
    Yields (Excused c.target) c.Allows (reporterAt c depth path b) := by
  induction depth generalizing path id b with
  | zero =>
    have hlen := length_le_of_blocks hway.nodup hway.blocks
    omega
  | succ depth ih =>
    have hinput := yields_inputIn fun name id' b' => hway.reporter hb fun id' b' hway' hb' =>
      ih hway' hb' (by rw [List.length_cons]; omega)
    exact @Reporter.yields_compile _ ⟨c, b, inputIn (reporterAt c depth) c path b⟩ ⟨hc, hinput⟩

/-! ## 4. Scripts -/

/-- A block at the end of a path, with what it holds. -/
def commandAt (c : Context) (depth : Nat) (path : Path) (b : Block) : Command where
  context := c
  block := b
  input := inputOf c path b
  substack slot := stackAt c depth path (Block.substack? b slot)

/-- The blocks of a stack one after the other are code of the script, if each of them is. -/
theorem emits_compileWith {block : String → Block → Fresh (List Stmt)} {s : Stack}
    (hfault : ∀ e, s.fault = some e → E e)
    (hblock : ∀ b ∈ s.blocks, Command.Emits E c (block b.1 b.2)) :
    Command.Emits E c (s.compileWith block) := by
  intro n
  refine .bind (Gives.mapM (R := fun _ n parts m =>
    Emitted c.procedures c.own n parts.flatten m) .nil (fun b hb _ n => ?_) n) fun parts m h => ?_
  · refine Yields.mono ?_ (hblock b hb n)
    intro r hr as k has
    exact hr.append has
  · split
    · rename_i e he
      exact .error (hfault e he)
    · exact .pure h

/-- **Stacks are compiled to code of the script**, however deep they are nested. -/
theorem emits_stackAt (hc : c.Proper) {depth : Nat} {first : Option String}
    (hlead : Leads c.target path first)
    (hdepth : c.target.blocks.entries.length < depth + path.length) :
    Command.Emits (Excused c.target) c (stackAt c depth path first) := by
  induction depth generalizing path first with
  | zero =>
    have hlen := length_le_of_blocks hlead.nodup hlead.blocks
    omega
  | succ depth ih =>
    obtain ⟨hfault, hblocks⟩ := walk_spec (Leads.nil c.target first) (Nat.lt_succ_self _)
    refine emits_compileWith hfault fun b hmem n => ?_
    obtain ⟨hb, f, rfl, hreach⟩ := hblocks b hmem
    have hid : Leads c.target path (some b.1) :=
      ⟨hlead.nodup, hlead.blocks, fun p hp l hl =>
        Option.some.inj hl ▸ (hlead.links p hp f rfl).trans_left hreach⟩
    refine .lift (yields_enter hid) ?_
    rintro _ ⟨rfl, hnew⟩
    have hway := hid.way hnew hb
    have hinput := yields_inputIn fun name id' b' => hway.reporter hb fun id' b' hway' hb' =>
      yields_reporterAt hc hway' hb'
        (Nat.lt_of_lt_of_le (Nat.lt_succ_self _) (Nat.le_add_right _ _))
    have hsub (slot : String) : Command.Emits (Excused c.target) c
        (stackAt c depth (b.1 :: path) (Block.substack? b.2 slot)) := by
      refine ih (hway.leads fun l hl => ?_) (by rw [List.length_cons]; omega)
      unfold Block.substack? at hl
      split at hl
      · rename_i hslot
        cases hl
        exact TargetData.link_input hb hslot
      · cases hl
    exact @Command.emits_compile _ (commandAt c depth (b.1 :: path) b.2) ⟨⟨hc, hinput⟩, hsub⟩ n

/-- A stack is compiled to code of its script. -/
theorem emits_stackOf (hc : c.Proper) (first : Option String) :
    Command.Emits (Excused c.target) c (stackOf c first) :=
  emits_stackAt hc (.nil _ _) (Nat.lt_succ_self _)

/-! ## 5. Anything that is compiled -/

/-- Where any fault may be, only what succeeds matters. -/
theorem yields_of_forall {α : Type} {P : α → Prop} {x : Except Error α} (h : ∀ a, P a) :
    Yields (fun _ => True) P x := by
  cases x with
  | ok a => exact .ok (h a)
  | error e => exact .error trivial

theorem allows_reporterAt (hc : c.Proper) (depth : Nat) (path : Path) (b : Block) :
    Yields (fun _ => True) c.Allows (reporterAt c depth path b) := by
  induction depth generalizing path b with
  | zero => exact .error trivial
  | succ depth ih =>
    have hinput (name : String) (slot : Slot) : Yields (fun _ => True) c.Allows
        (inputIn (reporterAt c depth) c path b name slot) :=
      yields_inputIn (fun _ _ b' _ _ => yields_of_forall fun way => ih way b') name slot
    exact @Reporter.yields_compile _ ⟨c, b, inputIn (reporterAt c depth) c path b⟩ ⟨hc, hinput⟩

theorem sound_commandAt (hc : c.Proper) {depth : Nat} {path : Path} (b : Block)
    (hstack : ∀ first, Command.Emits (fun _ => True) c (stackAt c depth path first)) :
    (commandAt c depth path b).Sound fun _ => True := by
  refine ⟨⟨hc, ?_⟩, fun slot => hstack _⟩
  exact yields_inputIn fun _ _ b' _ _ => yields_of_forall fun way => allows_reporterAt hc _ way b'

theorem emits_anywhere (hc : c.Proper) (depth : Nat) (path : Path) (first : Option String) :
    Command.Emits (fun _ => True) c (stackAt c depth path first) := by
  induction depth generalizing path first with
  | zero => exact fun n => .error trivial
  | succ depth ih =>
    refine emits_compileWith (fun _ _ => trivial) fun b _ n => ?_
    refine .lift (yields_of_forall fun _ => trivial) fun way _ => ?_
    exact Command.emits_compile (sound_commandAt hc b.2 fun first => ih way first) n

/-- What a computation gives, if any fault may be. -/
theorem emitted_of_emits {x : Fresh (List Stmt)} (h : Command.Emits (fun _ => True) c x)
    {n n' : Nat} {code : List Stmt} (hx : x n = .ok (code, n')) :
    Emitted c.procedures c.own n code n' := by
  have hgives := h n
  unfold Gives at hgives
  rw [hx] at hgives
  cases hgives with
  | ok h => exact h

/-- **What a stack is compiled to is code of the script**, wherever it stands. -/
theorem emitted_stackAt (hc : c.Proper) {depth : Nat} {path : Path} {first : Option String}
    {n n' : Nat} {code : List Stmt} (h : stackAt c depth path first n = .ok (code, n')) :
    Emitted c.procedures c.own n code n' :=
  emitted_of_emits (emits_anywhere hc depth path first) h

/-- **What a block is compiled to is code of the script**, wherever it stands. -/
theorem emitted_commandAt (hc : c.Proper) {depth : Nat} {path : Path} {b : Block} {n n' : Nat}
    {code : List Stmt} (h : (commandAt c depth path b).compile n = .ok (code, n')) :
    Emitted c.procedures c.own n code n' :=
  emitted_of_emits (Command.emits_compile (sound_commandAt hc b (emits_anywhere hc depth path))) h

end Compile

end BlockScript
