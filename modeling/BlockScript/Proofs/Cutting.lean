import BlockScript.Proofs.Statements

/-!
# What cutting gives

A script can be cut just if no label stands in a native loop and none stands twice. Then there is
one continuation for each label, and it holds what remains of the script there.

* `Script.labelsIn_eq_ok`: when the labels can be collected, and what they are;
* `Script.Remains`: what remains of each list around a label, innermost first;
* `Script.remains_of_after?`: `after?` finds exactly that;
* `Script.cut_eq_ok`: the continuations of a script that can be cut.
-/

namespace BlockScript

/-- A sequence succeeds just if both parts do. -/
theorem except_bind_eq_ok {ε α β : Type} {x : Except ε α} {f : α → Except ε β} {b : β} :
    (x >>= f) = .ok b ↔ ∃ a, x = .ok a ∧ f a = .ok b := by
  cases x with
  | ok a =>
    constructor
    · intro h
      exact ⟨a, rfl, h⟩
    · rintro ⟨_, ha, h⟩
      cases ha
      exact h
  | error e =>
    constructor
    · intro h
      cases h
    · rintro ⟨_, h, _⟩
      cases h

theorem eq_ok_of_toOption {ε α : Type} {x : Except ε α} {a : α} (h : x.toOption = some a) :
    x = .ok a := by
  cases x with
  | error e => cases h
  | ok b =>
    cases h
    rfl

namespace Script

/-! ## 1. Collecting labels -/

/-- The labels stand once each, and none of them was seen before. -/
def Fresh (seen ls : List Label) : Prop := ls.Nodup ∧ ∀ l ∈ ls, l ∉ seen

theorem Fresh.nil (seen : List Label) : Fresh seen [] :=
  ⟨List.nodup_nil, fun _ h => absurd h List.not_mem_nil⟩

theorem fresh_append {seen a b : List Label} :
    Fresh seen (a ++ b) ↔ Fresh seen a ∧ Fresh (seen ++ a) b := by
  unfold Fresh
  rw [List.nodup_append]
  constructor
  · rintro ⟨⟨ha, hb, hab⟩, hs⟩
    refine ⟨⟨ha, fun l hl => hs l (List.mem_append_left _ hl)⟩, hb, fun l hl hmem => ?_⟩
    rcases List.mem_append.mp hmem with h | h
    · exact hs l (List.mem_append_right _ hl) h
    · exact hab l h l hl rfl
  · rintro ⟨⟨ha, hs⟩, hb, hs'⟩
    refine ⟨⟨ha, hb, fun x hx y hy e => ?_⟩, fun l hl hmem => ?_⟩
    · exact hs' y hy (List.mem_append_right _ (e ▸ hx))
    · rcases List.mem_append.mp hl with h | h
      · exact hs l h hmem
      · exact hs' l h (List.mem_append_left _ hmem)

/-- A statement that puts no label into the list. -/
theorem eq_ok_of_labelless {seen ls : List Label} {P : Prop} (hP : P) :
    (.ok seen : Except CutError (List Label)) = .ok ls ↔
      P ∧ Fresh seen [] ∧ ls = seen ++ [] := by
  rw [List.append_nil]
  constructor
  · intro h
    cases h
    exact ⟨hP, .nil _, rfl⟩
  · rintro ⟨_, _, rfl⟩
    rfl

/-- A native loop has no place for labels. -/
theorem loop_eq_ok {seen ls : List Label} {body : List Stmt} :
    (if Stmt.anyLabel body then (.error .insideLoop : Except CutError (List Label)) else .ok seen)
        = .ok ls ↔
      Stmt.anyLabel body = false ∧ Fresh seen [] ∧ ls = seen ++ [] := by
  cases h : Stmt.anyLabel body with
  | true =>
    constructor
    · intro h'
      cases h'
    · rintro ⟨h', _⟩
      cases h'
  | false => exact eq_ok_of_labelless rfl

theorem label_eq_ok {seen ls : List Label} {l : Label} :
    labelsOf seen (.label l) = .ok ls ↔
      ClearAt (.label l) ∧ Fresh seen (labelsAt (.label l)) ∧ ls = seen ++ [l] := by
  unfold labelsOf ClearAt
  constructor
  · intro h
    split at h
    · cases h
    · rename_i hl
      cases h
      refine ⟨trivial, ⟨List.nodup_singleton l, fun k hk => ?_⟩, rfl⟩
      rw [List.mem_singleton.mp hk]
      exact hl
  · rintro ⟨_, ⟨_, hl⟩, rfl⟩
    rw [if_neg (hl l (List.mem_singleton.mpr rfl))]

/-- Two parts that are collected one after the other. -/
theorem seq_eq_ok {seen ls a b : List Label} {A B : Prop}
    {x : Except CutError (List Label)} {f : List Label → Except CutError (List Label)}
    (hx : ∀ {ls}, x = .ok ls ↔ A ∧ Fresh seen a ∧ ls = seen ++ a)
    (hf : ∀ {ls}, f (seen ++ a) = .ok ls ↔ B ∧ Fresh (seen ++ a) b ∧ ls = seen ++ a ++ b) :
    (x >>= f) = .ok ls ↔ (A ∧ B) ∧ Fresh seen (a ++ b) ∧ ls = seen ++ (a ++ b) := by
  rw [except_bind_eq_ok, fresh_append, ← List.append_assoc]
  constructor
  · rintro ⟨m, hm, h⟩
    obtain ⟨hA, ha, rfl⟩ := hx.mp hm
    obtain ⟨hB, hb, rfl⟩ := hf.mp h
    exact ⟨⟨hA, hB⟩, ⟨ha, hb⟩, rfl⟩
  · rintro ⟨⟨hA, hB⟩, ⟨ha, hb⟩, rfl⟩
    exact ⟨_, hx.mpr ⟨hA, ha, rfl⟩, hf.mpr ⟨hB, hb, rfl⟩⟩

/-- **The labels of a script can be collected just if they stand once each and outside native
    loops**; they are collected in the order in which they stand. -/
theorem labelsIn_eq_ok (script : List Stmt) : ∀ {seen ls : List Label},
    labelsIn seen script = .ok ls ↔
      Clear script ∧ Fresh seen (labels script) ∧ ls = seen ++ labels script := by
  apply @Stmt.induction
    (fun s => ∀ {seen ls}, labelsOf seen s = .ok ls ↔
      ClearAt s ∧ Fresh seen (labelsAt s) ∧ ls = seen ++ labelsAt s)
    (fun script => ∀ {seen ls}, labelsIn seen script = .ok ls ↔
      Clear script ∧ Fresh seen (labels script) ∧ ls = seen ++ labels script)
  case leaf =>
    intro s hs seen ls
    cases s with
    | label l => exact label_eq_ok
    | branch | «repeat» | «while» | forever => cases hs
    | _ => exact eq_ok_of_labelless trivial
  case branch =>
    intro cond yes no hyes hno seen ls
    exact seq_eq_ok hyes hno
  case «repeat» => exact fun _ _ _ _ _ => loop_eq_ok
  case «while» => exact fun _ _ _ _ _ => loop_eq_ok
  case forever => exact fun _ _ _ _ => loop_eq_ok
  case nil => exact eq_ok_of_labelless trivial
  case cons =>
    intro s rest hs hrest seen ls
    exact seq_eq_ok hs hrest

/-! ## 2. What remains at a label -/

/-- What remains of a script at a label: the rest of the list in which the label stands, then the
    rest of each list around that one, innermost first. The other side of a branch is no part of
    it. -/
inductive Remains (l : Label) : List Stmt → List (List Stmt) → Prop
  | here (rest : List Stmt) : Remains l (.label l :: rest) [rest]
  | yes {cond : Expr} {yes no rest : List Stmt} {tails : List (List Stmt)}
      (h : Remains l yes tails) : Remains l (.branch cond yes no :: rest) (tails ++ [rest])
  | no {cond : Expr} {yes no rest : List Stmt} {tails : List (List Stmt)}
      (h : Remains l no tails) : Remains l (.branch cond yes no :: rest) (tails ++ [rest])
  | later {s : Stmt} {rest : List Stmt} {tails : List (List Stmt)}
      (h : Remains l rest tails) : Remains l (s :: rest) tails

/-- Something remains only at labels of the script. -/
theorem Remains.mem_labels {l : Label} {script : List Stmt} {tails : List (List Stmt)}
    (h : Remains l script tails) : l ∈ labels script := by
  induction h with
  | here rest => exact List.mem_cons_self
  | yes _ ih => exact List.mem_append_left _ (List.mem_append_left _ ih)
  | no _ ih => exact List.mem_append_left _ (List.mem_append_right _ ih)
  | later _ ih => exact List.mem_append_right _ ih

/-- **At a label that stands once, one thing remains.** -/
theorem Remains.unique {l : Label} {script : List Stmt} {tails tails' : List (List Stmt)}
    (h : Remains l script tails) (h' : Remains l script tails')
    (hnodup : (labels script).Nodup) : tails = tails' := by
  induction h generalizing tails' with
  | here rest =>
    have hrest : l ∉ labels rest := (List.nodup_cons.mp hnodup).1
    cases h' with
    | here => rfl
    | later h' => exact absurd h'.mem_labels hrest
  | @yes cond yes no rest tails h ih =>
    obtain ⟨hin, -, hout⟩ := List.nodup_append.mp hnodup
    obtain ⟨hyes, -, hsides⟩ := List.nodup_append.mp hin
    cases h' with
    | yes h' => rw [ih h' hyes]
    | no h' => exact absurd rfl (hsides l h.mem_labels l h'.mem_labels)
    | later h' =>
      exact absurd rfl (hout l (List.mem_append_left _ h.mem_labels) l h'.mem_labels)
  | @no cond yes no rest tails h ih =>
    obtain ⟨hin, -, hout⟩ := List.nodup_append.mp hnodup
    obtain ⟨-, hno, hsides⟩ := List.nodup_append.mp hin
    cases h' with
    | yes h' => exact absurd rfl (hsides l h'.mem_labels l h.mem_labels)
    | no h' => rw [ih h' hno]
    | later h' =>
      exact absurd rfl (hout l (List.mem_append_right _ h.mem_labels) l h'.mem_labels)
  | @later s rest tails h ih =>
    obtain ⟨-, hrest, hout⟩ := List.nodup_append.mp hnodup
    cases h' with
    | here => exact absurd rfl (hout l List.mem_cons_self l h.mem_labels)
    | yes h' =>
      exact absurd rfl (hout l (List.mem_append_left _ h'.mem_labels) l h.mem_labels)
    | no h' =>
      exact absurd rfl (hout l (List.mem_append_right _ h'.mem_labels) l h.mem_labels)
    | later h' => exact ih h' hrest

/-- What remains of a script holds no statement that is not in it. -/
theorem Remains.mem_nodes {l : Label} {script : List Stmt} {tails : List (List Stmt)}
    (h : Remains l script tails) {n : Stmt} (hn : n ∈ nodes tails.flatten) : n ∈ nodes script := by
  induction h with
  | here rest =>
    rw [List.flatten_singleton] at hn
    exact mem_nodes_cons.mpr (.inr hn)
  | yes _ ih =>
    rw [List.flatten_append, List.flatten_singleton] at hn
    rcases mem_nodes_append.mp hn with hn | hn
    · exact mem_nodes_cons.mpr (.inl (List.mem_cons_of_mem _ (List.mem_append_left _ (ih hn))))
    · exact mem_nodes_cons.mpr (.inr hn)
  | no _ ih =>
    rw [List.flatten_append, List.flatten_singleton] at hn
    rcases mem_nodes_append.mp hn with hn | hn
    · exact mem_nodes_cons.mpr (.inl (List.mem_cons_of_mem _ (List.mem_append_right _ (ih hn))))
    · exact mem_nodes_cons.mpr (.inr hn)
  | later _ ih => exact mem_nodes_cons.mpr (.inr (ih hn))

/-- What is found at a label is what remains there, put together. -/
theorem remains_of_after? (l : Label) (script : List Stmt) : ∀ {rest : List Stmt},
    after? l script = some rest → ∃ tails, Remains l script tails ∧ rest = tails.flatten := by
  -- inside a statement nothing is said about the list around it, hence the quantified `rest`
  apply @Stmt.induction
    (fun s => ∀ {inner}, afterIn? l s = some inner → ∀ rest, ∃ tails,
      Remains l (s :: rest) (tails ++ [rest]) ∧ inner = tails.flatten)
    (fun script => ∀ {rest}, after? l script = some rest → ∃ tails,
      Remains l script tails ∧ rest = tails.flatten)
  case leaf =>
    intro s hs inner h rest
    cases s with
    | label m =>
      unfold afterIn? at h
      split at h
      · rename_i hm
        cases h
        subst hm
        exact ⟨[], .here rest, rfl⟩
      · cases h
    | branch | «repeat» | «while» | forever => cases hs
    | _ => cases h
  case branch =>
    intro cond yes no hyes hno inner h rest
    unfold afterIn? at h
    split at h
    · rename_i r hr
      cases h
      obtain ⟨tails, ht, rfl⟩ := hyes hr
      exact ⟨tails, .yes ht, rfl⟩
    · obtain ⟨tails, ht, rfl⟩ := hno h
      exact ⟨tails, .no ht, rfl⟩
  case «repeat» =>
    intro _ _ _ _ h
    cases h
  case «while» =>
    intro _ _ _ _ h
    cases h
  case forever =>
    intro _ _ _ h
    cases h
  case nil =>
    intro _ h
    cases h
  case cons =>
    intro s rest hs hrest found h
    unfold after? at h
    split at h
    · rename_i inner hin
      cases h
      obtain ⟨tails, ht, rfl⟩ := hs hin rest
      refine ⟨tails ++ [rest], ht, ?_⟩
      rw [List.flatten_append, List.flatten_singleton]
    · obtain ⟨tails, ht, rfl⟩ := hrest h
      exact ⟨tails, .later ht, rfl⟩

/-- Something is found at every label of the script. -/
theorem isSome_after? (l : Label) (script : List Stmt) :
    l ∈ labels script → (after? l script).isSome = true := by
  apply @Stmt.induction
    (fun s => l ∈ labelsAt s → (afterIn? l s).isSome = true)
    (fun script => l ∈ labels script → (after? l script).isSome = true)
  case leaf =>
    intro s hs h
    cases s with
    | label m =>
      unfold afterIn?
      rw [if_pos (List.mem_singleton.mp h).symm]
      rfl
    | branch | «repeat» | «while» | forever => cases hs
    | _ => exact absurd h List.not_mem_nil
  case branch =>
    intro cond yes no hyes hno h
    unfold afterIn?
    split
    · rfl
    · rename_i hnone
      rcases List.mem_append.mp h with h | h
      · rw [hnone] at hyes
        exact absurd (hyes h) Bool.false_ne_true
      · exact hno h
  case «repeat» => exact fun _ _ _ h => absurd h List.not_mem_nil
  case «while» => exact fun _ _ _ h => absurd h List.not_mem_nil
  case forever => exact fun _ _ h => absurd h List.not_mem_nil
  case nil => exact fun h => absurd h List.not_mem_nil
  case cons =>
    intro s rest hs hrest h
    unfold after?
    split
    · rfl
    · rename_i hnone
      rcases List.mem_append.mp h with h | h
      · rw [hnone] at hs
        exact absurd (hs h) Bool.false_ne_true
      · exact hrest h

/-! ## 3. The continuations -/

/-- What runs when the script is resumed at a label. -/
def bodyAt (script : List Stmt) (l : Label) : List Stmt := normal ((after? l script).getD [])

theorem continuationAt_eq_ok {script : List Stmt} {l : Label} (h : l ∈ labels script) :
    continuationAt script l = .ok ⟨l, bodyAt script l⟩ := by
  obtain ⟨rest, hrest⟩ := Option.isSome_iff_exists.mp (isSome_after? l script h)
  unfold continuationAt bodyAt
  rw [hrest]
  rfl

/-- A function that succeeds on all of a list gives the list of its values. -/
theorem mapM_eq_ok {ε α β : Type} {f : α → Except ε β} {g : α → β} {l : List α}
    (h : ∀ a ∈ l, f a = .ok (g a)) : l.mapM f = .ok (l.map g) := by
  induction l with
  | nil => rfl
  | cons a rest ih =>
    rw [List.mapM_cons, h a List.mem_cons_self, ih fun b hb => h b (List.mem_cons_of_mem _ hb)]
    rfl

/-- **A script can be cut just if its labels stand once each and outside native loops**, and then
    each label has its continuation, in the order of the labels. -/
theorem cut_eq_ok {script : List Stmt} {parts : List Continuation} :
    cut script = .ok parts ↔ Clear script ∧ (labels script).Nodup ∧
      parts = (labels script).map fun l => ⟨l, bodyAt script l⟩ := by
  have hparts : (labels script).mapM (continuationAt script) =
      .ok ((labels script).map fun l => ⟨l, bodyAt script l⟩) :=
    mapM_eq_ok fun l hl => continuationAt_eq_ok hl
  unfold cut
  rw [except_bind_eq_ok]
  constructor
  · rintro ⟨ls, hls, h⟩
    obtain ⟨hclear, hfresh, rfl⟩ := (labelsIn_eq_ok script).mp hls
    rw [List.nil_append, hparts] at h
    cases h
    exact ⟨hclear, hfresh.1, rfl⟩
  · rintro ⟨hclear, hnodup, rfl⟩
    exact ⟨_, (labelsIn_eq_ok script).mpr ⟨hclear, ⟨hnodup, fun _ _ => List.not_mem_nil⟩, rfl⟩,
      hparts⟩

/-- What runs at a label of a script is the normal form of what remains there. -/
theorem exists_remains {script : List Stmt} {l : Label} (h : l ∈ labels script) :
    ∃ tails, Remains l script tails ∧ bodyAt script l = normal tails.flatten := by
  obtain ⟨rest, hrest⟩ := Option.isSome_iff_exists.mp (isSome_after? l script h)
  obtain ⟨tails, ht, rfl⟩ := remains_of_after? l script hrest
  refine ⟨tails, ht, ?_⟩
  unfold bodyAt
  rw [hrest]
  rfl

end Script

end BlockScript
