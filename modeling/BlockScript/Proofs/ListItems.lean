import BlockScript.Proofs.Bystanders
import BlockScript.Proofs.Positions

/-!
# List operations are total and touch one position

The item of a list is read, replaced, deleted or inserted by an index that is any value. The index
is resolved against the length first and the list is looked up again then, so what the one promises
the other has to meet: whatever the index is, the operation ends well, and it does what the position
that the index names asks for, in that one list.

* `Items.Picked`, `Items.Deleted`, `Items.Inserted`, `Items.Replaced`: what the operations are for;
* `Items.picked_get`, … `Items.replaced_replace`: they do it;
* `Act.OnlyItems`: one list of one target changes, and nothing else but the dice;
* `Act.writes_at`: to resolve an index and to write then;
* `Act.list_operations`: the operations of a thread at work.
-/

namespace BlockScript

/-! ## 1. Contents -/

namespace Items

open ItemIndex (Designates)

/-- What the item of a list is: the element at the position, or the empty text. -/
structure Picked (items : List Value) (dice : Dice) (v result : Value) : Prop where
  named : ∀ i, Designates items.length dice v i → items[i]? = some result
  unnamed : (∀ i, ¬ Designates items.length dice v i) → result = .text ""

/-- What is left of a list: all but the element at the position, nothing, or all. -/
structure Deleted (items : List Value) (dice : Dice) (v : Value) (result : List Value) : Prop where
  named : ∀ i, Designates items.length dice v i →
    i < items.length ∧ result = items.take i ++ items.drop (i + 1)
  all : v = .text "all" → result = []
  unnamed : v ≠ .text "all" → (∀ i, ¬ Designates items.length dice v i) → result = items

/-- What becomes of a list with an item more: it stands after as many as the position has before
    it, and one position past the end is named too. -/
structure Inserted (items : List Value) (dice : Dice) (v item : Value) (result : List Value) :
    Prop where
  named : ∀ i, Designates (items.length + 1) dice v i →
    i ≤ items.length ∧ result = items.take i ++ item :: items.drop i
  unnamed : (∀ i, ¬ Designates (items.length + 1) dice v i) → result = items

/-- What becomes of a list with another item at the position. -/
structure Replaced (items : List Value) (dice : Dice) (v item : Value) (result : List Value) :
    Prop where
  named : ∀ i, Designates items.length dice v i →
    i < items.length ∧ result.length = items.length ∧ result[i]? = some item ∧
      ∀ j, j ≠ i → result[j]? = items[j]?
  unnamed : (∀ i, ¬ Designates items.length dice v i) → result = items

section Operations

variable {items : List Value} (dice : Dice) (v item : Value) (hlength : items.length < 2 ^ 53)

/-- An index that names no position of a range is resolved to none. -/
theorem of_of_unnamed {range : Nat} (hrange : range ≤ 2 ^ 53) {dice : Dice} {v : Value}
    (h : ∀ i, ¬ Designates range dice v i) :
    (ItemIndex.of range v dice).1 = .all ∨ (ItemIndex.of range v dice).1 = .none := by
  cases hof : (ItemIndex.of range v dice).1 with
  | «at» i => exact absurd ((ItemIndex.of_eq_at_iff hrange).mp hof) (h i)
  | all => exact .inl rfl
  | none => exact .inr rfl

include hlength

theorem picked_get : Picked items dice v (get items (ItemIndex.of items.length v dice).1) := by
  refine ⟨fun i h => ?_, fun h => ?_⟩
  · rw [(ItemIndex.of_eq_at_iff hlength.le).mpr h]
    show _ = some (items.getD i .empty)
    rw [List.getD_eq_getElem?_getD, List.getElem?_eq_getElem h.lt, Option.getD_some]
  · rcases of_of_unnamed hlength.le h with hof | hof <;> rw [hof] <;> rfl

theorem deleted_delete :
    Deleted items dice v (delete items (ItemIndex.of items.length v dice).1) := by
  refine ⟨fun i h => ⟨h.lt, ?_⟩, fun h => ?_, fun hall h => ?_⟩
  · rw [(ItemIndex.of_eq_at_iff hlength.le).mpr h]
    exact List.eraseIdx_eq_take_drop_succ items i
  · rw [ItemIndex.of_eq_all_iff.mpr h]
    rfl
  · rcases of_of_unnamed hlength.le h with hof | hof
    · exact absurd (ItemIndex.of_eq_all_iff.mp hof) hall
    · rw [hof]
      rfl

theorem inserted_insert :
    Inserted items dice v item (insert items item (ItemIndex.of (items.length + 1) v dice).1) := by
  refine ⟨fun i h => ⟨Nat.le_of_lt_succ h.lt, ?_⟩, fun h => ?_⟩
  · rw [(ItemIndex.of_eq_at_iff hlength).mpr h]
    rfl
  · rcases of_of_unnamed hlength h with hof | hof <;> rw [hof] <;> rfl

theorem replaced_replace :
    Replaced items dice v item (replace items item (ItemIndex.of items.length v dice).1) := by
  refine ⟨fun i h => ?_, fun h => ?_⟩
  · rw [(ItemIndex.of_eq_at_iff hlength.le).mpr h]
    refine ⟨h.lt, List.length_set, List.getElem?_set_self h.lt, fun j hj => ?_⟩
    exact List.getElem?_set_ne hj.symm
  · rcases of_of_unnamed hlength.le h with hof | hof <;> rw [hof] <;> rfl

end Operations

end Items

/-! ## 2. Whose list it is -/

namespace Act

variable {H : Type}

/-- A list that a thread at work can get at: whose it is, in a table of targets that is in order,
    and that doubles can count it. -/
structure Owns (list : Storage) (o : Target) (t : Turn H) : Prop where
  registered : t.machine.Registered
  owner : owner list t = .ok o t
  length : (o.items list.name).length < 2 ^ 53

/-- Nothing changes but the items under one name in one target, and the dice. -/
structure OnlyItems (o : Target) (name : String) (items : List Value) (t t' : Turn H) : Prop where
  rest : t' = { t with
    machine := { t.machine with targets := t'.machine.targets, dice := t'.machine.dice } }
  others : ∀ id, id ≠ o.id → t'.machine.target? id = t.machine.target? id
  owner : ∃ o', t'.machine.target? o.id = some o' ∧ o' = { o with lists := o'.lists } ∧
    o'.items name = items ∧ ∀ other, other ≠ name → o'.lists.get? other = o.lists.get? other

/-- The identity of whom a list belongs to. -/
def ownerId (list : Storage) (t : Turn H) : TargetId :=
  match list.owner with
  | .target => t.thread.target
  | .stage => t.machine.stage

variable {list : Storage} {o : Target} {t t' : Turn H}

theorem owner_eq_ok_iff :
    owner list t = .ok o t ↔ t.machine.target? (ownerId list t) = some o := by
  rw [owner_apply]
  unfold ownerId
  cases list.owner with
  | target =>
    rw [current_apply]
    cases t.machine.target? t.thread.target with
    | none => simp
    | some target => simp
  | stage =>
    unfold Machine.stage?
    cases t.machine.target? t.machine.stage with
    | none => simp
    | some target => simp

/-- Where targets, the stage and the thread's own target are the same, the list is too. -/
theorem Owns.of_eq (h : Owns list o t) (htargets : t'.machine.targets = t.machine.targets)
    (hfree : t'.machine.free = t.machine.free) (hstage : t'.machine.stage = t.machine.stage)
    (htarget : t'.thread.target = t.thread.target) : Owns list o t' := by
  have hsame := Machine.target?_of_targets htargets
  refine ⟨⟨fun id x hx => h.registered.id id x (hsame id ▸ hx), fun id hid => ?_,
    hfree ▸ h.registered.nodup⟩, owner_eq_ok_iff.mpr ?_, h.length⟩
  · rw [hsame]
    exact h.registered.gap id (hfree ▸ hid)
  · have hid : ownerId list t' = ownerId list t := by
      unfold ownerId
      rw [htarget, hstage]
    rw [hsame, hid]
    exact owner_eq_ok_iff.mp h.owner

/-- The owner is in its own place. -/
theorem Owns.target? (h : Owns list o t) : t.machine.target? o.id = some o := by
  have hfound := owner_eq_ok_iff.mp h.owner
  rw [h.registered.id _ o hfound]
  exact hfound

section Eval

variable [Host H] {e : Expr} {v : Value}

/-- To evaluate something changes no target. -/
theorem Owns.eval (h : Owns list o t) (hv : eval e t = .ok v t') : Owns list o t' := by
  have haside := (made_eval e.frees_true).aside.of_ok hv
  have hthread := ((made_eval e.frees_true).alters_sensing (s := .stopAll)).of_ok hv
  exact h.of_eq haside.targets haside.free haside.stage hthread.thread.target

end Eval

/-! ## 3. The steps of an operation -/

/-- The turn with other dice. -/
def withDice (t : Turn H) (dice : Dice) : Turn H := { t with machine := { t.machine with dice } }

theorem Owns.withDice (h : Owns list o t) (dice : Dice) : Owns list o (withDice t dice) :=
  h.of_eq rfl rfl rfl rfl

theorem items_apply (h : Owns list o t) : items list t = .ok (o.items list.name) t := by
  unfold items
  rw [bind_apply, h.owner]
  rfl

theorem itemIndex_apply (length : Nat) (v : Value) (t : Turn H) :
    itemIndex length v t =
      .ok (ItemIndex.of length v t.machine.dice).1
        (withDice t (ItemIndex.of length v t.machine.dice).2) :=
  rfl

theorem modifyOwner_apply (h : Owns list o t) (f : Target → Target) :
    modifyOwner list f t = .ok () { t with machine := t.machine.mapTarget o.id f } := by
  unfold modifyOwner
  rw [bind_apply, h.owner]
  rfl

theorem onlyItems_withDice (h : Owns list o t) (dice : Dice) :
    OnlyItems o list.name (o.items list.name) t (withDice t dice) :=
  ⟨rfl, fun _ _ => rfl, o, h.target?, rfl, rfl, fun _ _ => rfl⟩

/-- **To write the items of a list** changes nothing else. -/
theorem onlyItems_setItems (h : Owns list o t) (dice : Dice) (f : List Value → List Value) :
    OnlyItems o list.name (f (o.items list.name)) t
      { withDice t dice with
        machine := (withDice t dice).machine.mapTarget o.id fun x =>
          x.setItems list.name (f (x.items list.name)) } := by
  refine ⟨rfl, fun id hid => ?_, o.setItems list.name (f (o.items list.name)), ?_, rfl, ?_,
    fun other hother => ?_⟩
  · exact (Machine.target?_mapTarget _ _ _ _).trans (if_neg hid.symm)
  · refine (Machine.target?_mapTarget _ _ _ _).trans ?_
    rw [if_pos rfl, (h.withDice dice).target?]
    rfl
  · unfold Target.items Target.setItems
    rw [Table.get?_put_self]
    rfl
  · exact Table.get?_put_of_ne hother _ _

/-- **To resolve an index and to write then** changes one list only. For each index, the items are
    written or left, and what is left is what there was. -/
theorem writes_at (h : Owns list o t) {range : Nat} {v : Value} {g : ItemIndex → Act H Unit}
    {f : List Value → ItemIndex → List Value} {P : List Value → Prop}
    (hg : ∀ i,
      g i = modifyOwner list (fun x => x.setItems list.name (f (x.items list.name) i)) ∨
      g i = pure () ∧ f (o.items list.name) i = o.items list.name)
    (hP : P (f (o.items list.name) (ItemIndex.of range v t.machine.dice).1)) :
    ∃ items t', (itemIndex range v >>= g) t = .ok () t' ∧ P items ∧
      OnlyItems o list.name items t t' := by
  rw [bind_apply, itemIndex_apply]
  dsimp only
  generalize (ItemIndex.of range v t.machine.dice).1 = i at hP
  rcases hg i with hwrite | ⟨hleave, hsame⟩
  · rw [hwrite]
    refine ⟨_, _, modifyOwner_apply (h.withDice _) _, hP, ?_⟩
    exact onlyItems_setItems h _ fun items => f items i
  · rw [hleave]
    rw [hsame] at hP
    exact ⟨_, _, rfl, hP, onlyItems_withDice h _⟩

/-! ## 4. Operations -/

section Operations

variable [Host H] {index item : Expr} {t₁ t₂ : Turn H} {v x : Value} (h : Owns list o t)
  (hv : eval index t = .ok v t₁) (hx : eval item t₁ = .ok x t₂)

include h hv

theorem eval_listItem :
    ∃ dice r, eval (.listItem list index) t = .ok r (withDice t₁ dice) ∧
      Items.Picked (o.items list.name) t₁.machine.dice v r := by
  have howns := h.eval hv
  have hpicked := Items.picked_get t₁.machine.dice v h.length
  rw [eval, bind_apply, hv]
  simp only [bind_apply, items_apply howns, itemIndex_apply, items_apply (howns.withDice _)]
  exact ⟨_, _, rfl, hpicked⟩

theorem execList_delete :
    ∃ items t', execList (.delete list index) t = .ok () t' ∧
      Items.Deleted (o.items list.name) t₁.machine.dice v items ∧
      OnlyItems o list.name items t₁ t' := by
  have howns := h.eval hv
  rw [execList, bind_apply, hv]
  dsimp only
  rw [bind_apply, items_apply howns]
  exact writes_at howns (f := Items.delete) (fun _ => .inl rfl)
    (Items.deleted_delete _ _ h.length)

include hx

theorem execList_insert :
    ∃ items t', execList (.insert list index item) t = .ok () t' ∧
      Items.Inserted (o.items list.name) t₂.machine.dice v x items ∧
      OnlyItems o list.name items t₂ t' := by
  have howns := (h.eval hv).eval hx
  rw [execList, bind_apply, hv]
  dsimp only
  rw [bind_apply, hx]
  dsimp only
  rw [bind_apply, items_apply howns]
  refine writes_at howns (f := fun items i => Items.insert items x i) (fun i => ?_)
    (Items.inserted_insert _ _ _ h.length)
  cases i with
  | «at» i => exact .inl rfl
  | all | none => exact .inr ⟨rfl, rfl⟩

theorem execList_replace :
    ∃ items t', execList (.replace list index item) t = .ok () t' ∧
      Items.Replaced (o.items list.name) t₂.machine.dice v x items ∧
      OnlyItems o list.name items t₂ t' := by
  have howns := (h.eval hv).eval hx
  rw [execList, bind_apply, hv]
  dsimp only
  rw [bind_apply, hx]
  dsimp only
  rw [bind_apply, items_apply howns]
  refine writes_at howns (f := fun items i => Items.replace items x i) (fun i => ?_)
    (Items.replaced_replace _ _ _ h.length)
  cases i with
  | «at» i => exact .inl rfl
  | all | none => exact .inr ⟨rfl, rfl⟩

end Operations

variable [Host H]

/-- **List operations are total and touch one position.** A value names a position of a range
    exactly if it is the word for the last one or for any and there is one, or if its number rounds
    down to something from one to the end; the word for all names none. Whatever value the index
    has, to read, delete, insert and replace ends well, and does what the position that is named
    asks for. Nothing else changes but the dice: no other list, no variable, no other target. The
    table of targets, which has to be in order for this, is so in every state. -/
theorem list_operations :
    (∀ (range : Nat) (dice : Dice) (v : Value), range ≤ 2 ^ 53 →
      ((∃ i, ItemIndex.Designates range dice v i) ↔
        (v = .text "last" ∨ v = .text "random" ∨ v = .text "any") ∧ 0 < range ∨
          1.0 ≤ Number.floor v.toNumber ∧ Number.floor v.toNumber ≤ Number.ofNat range) ∧
      (v = .text "all" → ∀ i, ¬ ItemIndex.Designates range dice v i)) ∧
    (∀ (list : Storage) (o : Target) (index : Expr) (t t₁ : Turn H) (v : Value), Owns list o t →
      eval index t = .ok v t₁ →
      t₁.machine.targets = t.machine.targets ∧
      (∃ dice r, eval (.listItem list index) t = .ok r (withDice t₁ dice) ∧
        Items.Picked (o.items list.name) t₁.machine.dice v r) ∧
      (∃ items t', execList (.delete list index) t = .ok () t' ∧
        Items.Deleted (o.items list.name) t₁.machine.dice v items ∧
        OnlyItems o list.name items t₁ t') ∧
      ∀ (item : Expr) (t₂ : Turn H) (x : Value), eval item t₁ = .ok x t₂ →
        t₂.machine.targets = t.machine.targets ∧
        (∃ items t', execList (.insert list index item) t = .ok () t' ∧
          Items.Inserted (o.items list.name) t₂.machine.dice v x items ∧
          OnlyItems o list.name items t₂ t') ∧
        ∃ items t', execList (.replace list index item) t = .ok () t' ∧
          Items.Replaced (o.items list.name) t₂.machine.dice v x items ∧
          OnlyItems o list.name items t₂ t') ∧
    ∀ (p : Project) (programs : List Program) (options : Options) (host : H) (s : Surroundings)
      (m : Machine H) (w : World H), Machine.load p programs options host s = .ok m →
      World.Arises m w → w.machine.Registered := by
  refine ⟨fun range dice v hrange => ⟨ItemIndex.exists_designates_iff hrange, ?_⟩,
    fun list o index t t₁ v h hv => ?_, fun p programs options host s m w hload hw => ?_⟩
  · rintro rfl i h
    exact absurd (h.of_word hrange (by decide)).2 (by simp)
  · have htargets := ((made_eval index.frees_true).aside.of_ok hv).targets
    refine ⟨htargets, eval_listItem h hv, execList_delete h hv, fun item t₂ x hx => ?_⟩
    have htargets' := ((made_eval item.frees_true).aside.of_ok hx).targets
    exact ⟨htargets'.trans htargets, execList_insert h hv hx, execList_replace h hv hx⟩
  · obtain ⟨originals, -, hstart, -⟩ := Machine.roster_load hload
    exact (Machine.Rostered.recasts ⟨[], hstart⟩ (hw.recasts ⟨[], hstart⟩)).registered

/-- A list of letters. -/
def letters : Storage := .ofStage "letters"

/-- A stage that has it. -/
def lettered : Target where
  id := 0
  name := "Stage"
  body := .stage 0
  lists := .ofEntries [(letters.name, [.text "a", .text "b", .text "c"])]

/-- A thread of that stage. -/
def letteredTurn : Turn Headless where
  machine := .still [lettered] {}
  thread := .start 0 0 0
  seat := 0
  program := {}

/-- The third letter is named by a number that is not whole. -/
theorem lettered_operations :
    ∃ t₁ t₂ t₃ t₄,
      eval (.listItem letters (.const (.number 3.5))) letteredTurn = .ok (.text "c") t₁ ∧
      execList (.delete letters (.const (.number 3.5))) letteredTurn = .ok () t₂ ∧
      OnlyItems lettered letters.name [.text "a", .text "b"] letteredTurn t₂ ∧
      execList (.insert letters (.const (.number 3.5)) (.const (.text "x"))) letteredTurn =
        .ok () t₃ ∧
      OnlyItems lettered letters.name [.text "a", .text "b", .text "x", .text "c"] letteredTurn t₃ ∧
      execList (.replace letters (.const (.number 3.5)) (.const (.text "x"))) letteredTurn =
        .ok () t₄ ∧
      ∃ items, OnlyItems lettered letters.name items letteredTurn t₄ ∧
        items[2]? = some (.text "x") := by
  have hitems : lettered.items letters.name = [.text "a", .text "b", .text "c"] := rfl
  have howns : Owns letters lettered letteredTurn := by
    refine ⟨⟨fun id x hx => ?_, fun id hid => absurd hid List.not_mem_nil, List.nodup_nil⟩, rfl, ?_⟩
    · cases id with
      | zero =>
        cases hx
        rfl
      | succ id => cases hx
    · rw [hitems]
      decide
  have hthird (range : Nat) (h : 2 < range) (dice : Dice) :
      ItemIndex.Designates range dice (.number 3.5) 2 :=
    .number h (by decide +kernel)
  obtain ⟨-, ⟨dice, r, heval, hpicked⟩, ⟨items, t₂, hdelete, hdeleted, honly⟩, hrest⟩ :=
    list_operations.2.1 letters lettered (.const (.number 3.5)) letteredTurn letteredTurn
      (.number 3.5) howns rfl
  obtain ⟨-, ⟨items₃, t₃, hinsert, hinserted, honly₃⟩, items₄, t₄, hreplace, hreplaced, honly₄⟩ :=
    hrest (.const (.text "x")) letteredTurn (.text "x") rfl
  rw [hitems] at hpicked hdeleted hinserted hreplaced
  cases hpicked.named 2 (hthird _ (by decide) _)
  cases (hdeleted.named 2 (hthird _ (by decide) _)).2
  cases (hinserted.named 2 (hthird _ (by decide) _)).2
  exact ⟨_, t₂, t₃, t₄, heval, hdelete, honly, hinsert, honly₃, hreplace, items₄, honly₄,
    (hreplaced.named 2 (hthird _ (by decide) _)).2.2.1⟩

end Act

end BlockScript
