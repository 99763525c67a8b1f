import BlockScript.Proofs.Frames
import BlockScript.Proofs.Resumption

/-!
# Scripts at work before they are cut

A thread that runs the continuations of its program does what it would do in the scripts themselves,
labels and all. There each place of a script can still be told from every other, also where the
continuations look alike.

* `Rules.whole`: a thread finds the rest of its script at a label;
* `Program.Stems`: a program is put together from its scripts;
* `Script.Placed`: the labels among some statements are followed by what a thread finds there;
* `World.Uncut`, `World.Reaches.uncut`: every run of continuations is a run of scripts.
-/

namespace BlockScript

open Compile (Assembled Labelled)

/-! ## 1. The scripts of a program -/

/-- What remains of the script at the label. -/
def Rules.whole (source : Program → List Labelled) : Rules where
  finds p l code := ∃ s ∈ source p, ∃ tails, Script.Remains l s.body tails ∧ code = tails.flatten

/-- What remains of scripts is looked up in them. -/
def Finder.whole (source : Program → List Labelled) : Finder (.whole source) where
  find? p l := (source p).findSome? fun s => Script.after? l s.body
  reads h := by
    obtain ⟨s, hs, hafter⟩ := List.exists_of_findSome?_eq_some h
    obtain ⟨tails, hrem, rfl⟩ := Script.remains_of_after? _ _ hafter
    exact ⟨s, hs, tails, hrem, rfl⟩

/-- The scripts of each program of the project are those from which the compiler made it. -/
def Project.Sourced (p : Project) (source : Program → List Labelled) : Prop :=
  ∀ q, p.Compiles q → ∃ data ∈ p.targets, data.compile p.stage? = .ok q ∧
    ∃ count, (Compile.scripts data p.stage?).run (Compile.definitions data).length =
      .ok (source q, count)

/-- There are scripts from which the compiler made the programs of a project. -/
theorem Project.exists_sourced (p : Project) : ∃ source, p.Sourced source := by
  have hscripts (q : Program) (hq : p.Compiles q) : ∃ ss, ∃ data ∈ p.targets,
      data.compile p.stage? = .ok q ∧
      ∃ count, (Compile.scripts data p.stage?).run (Compile.definitions data).length =
        .ok (ss, count) := by
    obtain ⟨data, hdata, hcompile⟩ := hq
    obtain ⟨ss, count, hrun, -⟩ := Compile.assembled_of_compile hcompile
    exact ⟨ss, data, hdata, hcompile, count, hrun⟩
  choose! source hsource using hscripts
  exact ⟨source, hsource⟩

/-- The program is put together from its scripts. -/
def Program.Stems (source : Program → List Labelled) (q : Program) : Prop :=
  ∃ data, Assembled data (source q) q

variable {source : Program → List Labelled} {q : Program} {l : Label} {code code' : List Stmt}

theorem Project.Sourced.stems {p : Project} (h : p.Sourced source) (hq : p.Compiles q) :
    q.Stems source := by
  obtain ⟨data, -, hcompile, count, hrun⟩ := h q hq
  obtain ⟨ss, count', hrun', hassembled⟩ := Compile.assembled_of_compile hcompile
  cases hrun.symm.trans hrun'
  exact ⟨data, hassembled⟩

namespace Program.Stems

/-- A thread finds one thing at a label. -/
theorem unique (h : q.Stems source) (hc : (Rules.whole source).finds q l code)
    (hc' : (Rules.whole source).finds q l code') : code' = code := by
  obtain ⟨data, hassembled⟩ := h
  obtain ⟨s, hs, tails, hrem, rfl⟩ := hc
  obtain ⟨s', hs', tails', hrem', rfl⟩ := hc'
  have hsame := Compile.script_unique hassembled.scripts hs hs' hrem.mem_labels hrem'.mem_labels
  rw [hsame] at hrem'
  rw [hrem'.unique hrem (hassembled.scripts.whole s hs).nodup]

/-- A continuation is what remains of a script, pruned. -/
theorem whole (h : q.Stems source) (hc : Rules.cut.finds q l code') :
    ∃ code, (Rules.whole source).finds q l code ∧ Script.Pruned code code' := by
  obtain ⟨data, hassembled⟩ := h
  obtain ⟨c, hc, rfl⟩ := hc
  obtain ⟨-, s, hs, hl, hbody⟩ := hassembled.continuation l c hc
  obtain ⟨tails, hrem, hnormal⟩ := Script.exists_remains hl
  refine ⟨tails.flatten, ⟨s, hs, tails, hrem, rfl⟩, ?_⟩
  rw [hbody, hnormal]
  exact Script.pruned_normal _

/-- At each label of a script there is a continuation. -/
theorem cut (h : q.Stems source) (hc : (Rules.whole source).finds q l code) :
    ∃ code', Rules.cut.finds q l code' := by
  obtain ⟨data, hassembled⟩ := h
  obtain ⟨s, hs, tails, hrem, -⟩ := hc
  obtain ⟨c, hc⟩ := hassembled.closed.inRange s hs l hrem.mem_labels
  exact ⟨c.body, c, hc, rfl⟩

end Program.Stems

/-! ## 2. Labels among the statements at hand -/

namespace Script

variable {k : Label} {a b script : List Stmt} {tails ts : List (List Stmt)}

theorem Remains.append_left (h : Remains l a tails) (b : List Stmt) :
    ∃ ts, Remains l (a ++ b) ts ∧ ts.flatten = tails.flatten ++ b := by
  induction h with
  | here rest =>
    refine ⟨[rest ++ b], .here _, ?_⟩
    rw [List.flatten_singleton, List.flatten_singleton]
  | @yes cond yes no rest tails h ih =>
    refine ⟨tails ++ [rest ++ b], .yes h, ?_⟩
    rw [List.flatten_concat, List.flatten_concat, List.append_assoc]
  | @no cond yes no rest tails h ih =>
    refine ⟨tails ++ [rest ++ b], .no h, ?_⟩
    rw [List.flatten_concat, List.flatten_concat, List.append_assoc]
  | later _ ih =>
    obtain ⟨ts, hts, heq⟩ := ih
    exact ⟨ts, .later hts, heq⟩

theorem Remains.append_right (h : Remains l b tails) (a : List Stmt) :
    Remains l (a ++ b) tails := by
  induction a with
  | nil => exact h
  | cons s rest ih => exact .later ih

theorem Remains.of_append (h : Remains l (a ++ b) tails) :
    (∃ ts, Remains l a ts ∧ tails.flatten = ts.flatten ++ b) ∨ Remains l b tails := by
  induction a generalizing tails with
  | nil => exact .inr h
  | cons s rest ih =>
    rw [List.cons_append] at h
    cases h with
    | here =>
      refine .inl ⟨[rest], .here rest, ?_⟩
      rw [List.flatten_singleton, List.flatten_singleton]
    | @yes cond yes no _ ts h =>
      refine .inl ⟨ts ++ [rest], .yes h, ?_⟩
      rw [List.flatten_concat, List.flatten_concat, List.append_assoc]
    | @no cond yes no _ ts h =>
      refine .inl ⟨ts ++ [rest], .no h, ?_⟩
      rw [List.flatten_concat, List.flatten_concat, List.append_assoc]
    | later h =>
      rcases ih h with ⟨ts, hts, heq⟩ | h
      · exact .inl ⟨ts, .later hts, heq⟩
      · exact .inr h

/-- At a label in what remains of a script the same remains as in the script. -/
theorem Remains.flatten (h : Remains l script tails) (hk : Remains k tails.flatten ts) :
    ∃ ts', Remains k script ts' ∧ ts'.flatten = ts.flatten := by
  induction h generalizing ts with
  | here rest =>
    rw [List.flatten_singleton] at hk
    exact ⟨ts, .later hk, rfl⟩
  | @yes cond yes no rest tails _ ih =>
    rw [List.flatten_concat] at hk
    rcases hk.of_append with ⟨ts₁, hts, heq⟩ | hk
    · obtain ⟨ts', hts', heq'⟩ := ih hts
      refine ⟨ts' ++ [rest], .yes hts', ?_⟩
      rw [List.flatten_concat, heq', heq]
    · exact ⟨ts, .later hk, rfl⟩
  | @no cond yes no rest tails _ ih =>
    rw [List.flatten_concat] at hk
    rcases hk.of_append with ⟨ts₁, hts, heq⟩ | hk
    · obtain ⟨ts', hts', heq'⟩ := ih hts
      refine ⟨ts' ++ [rest], .no hts', ?_⟩
      rw [List.flatten_concat, heq', heq]
    · exact ⟨ts, .later hk, rfl⟩
  | later _ ih =>
    obtain ⟨ts', hts', heq⟩ := ih hk
    exact ⟨ts', .later hts', heq⟩

/-- Each label among the statements is followed by what a thread finds at the label, and none stands
    in a native loop. -/
structure Placed (R : Rules) (q : Program) (code : List Stmt) : Prop where
  clear : Clear code
  found : ∀ l tails, Remains l code tails → R.finds q l tails.flatten

/-- Where no label is found, none stands in a loop. -/
theorem clear_of_anyLabel (code : List Stmt) : Stmt.anyLabel code = false → Clear code := by
  apply @Stmt.induction
    (fun s => s.containsLabel = false → ClearAt s)
    (fun code => Stmt.anyLabel code = false → Clear code)
  case leaf =>
    intro s hs _
    cases s with
    | branch | «repeat» | «while» | forever => cases hs
    | _ => trivial
  case branch =>
    intro cond yes no hyes hno h
    obtain ⟨h1, h2⟩ := Bool.or_eq_false_iff.mp h
    exact ⟨hyes h1, hno h2⟩
  case «repeat» => exact fun _ _ _ h => h
  case «while» => exact fun _ _ _ h => h
  case forever => exact fun _ _ h => h
  case nil => exact fun _ => trivial
  case cons =>
    intro s rest hs hrest h
    obtain ⟨h1, h2⟩ := Bool.or_eq_false_iff.mp h
    exact ⟨hs h1, hrest h2⟩

theorem not_remains_of_anyLabel (h : Stmt.anyLabel a = false) : ¬ Remains l a tails := by
  intro hrem
  have hmem := hrem.mem_labels
  rw [labels_eq_nil a h] at hmem
  exact List.not_mem_nil hmem

/-- What a thread finds at a label has its labels in place. -/
theorem placed_whole (h : q.Stems source) (hc : (Rules.whole source).finds q l code) :
    Placed (.whole source) q code := by
  obtain ⟨data, hassembled⟩ := h
  obtain ⟨s, hs, tails, hrem, rfl⟩ := hc
  refine ⟨hrem.clear (hassembled.scripts.whole s hs).clear, fun k ts hts => ?_⟩
  obtain ⟨ts', hts', heq⟩ := hrem.flatten hts
  exact ⟨s, hs, ts', hts', heq.symm⟩

variable {R : Rules}

theorem Placed.right (h : Placed R q (a ++ b)) : Placed R q b :=
  ⟨(clear_append.mp h.clear).2, fun l tails hrem => h.found l tails (hrem.append_right a)⟩

/-- The labels of the statements before others. -/
theorem Placed.left (h : Placed R q (a ++ b)) (hrem : Remains l a tails) :
    R.finds q l (tails.flatten ++ b) := by
  obtain ⟨ts, hts, heq⟩ := hrem.append_left b
  rw [← heq]
  exact h.found l ts hts

/-- **A thread that goes on has the labels in place.** -/
theorem Placed.onward {s : Stmt} {t t' : Thread} {rest code : List Stmt}
    (h : Placed R q (s :: rest)) (ho : Act.Onward s t code t') : Placed R q (code ++ rest) := by
  have hrest : Placed R q rest := Placed.right (a := [s]) h
  -- a native loop holds no label, so there are only those that follow it
  have hloop {loop : Stmt} {body : List Stmt} (hnone : Stmt.anyLabel body = false)
      (hclear : ClearAt loop) (hlabels : labelsAt loop = []) :
      Placed R q ((body ++ [loop]) ++ rest) := by
    refine ⟨clear_append.mpr ⟨clear_append.mpr ⟨?_, hclear, trivial⟩, hrest.clear⟩, ?_⟩
    · exact clear_of_anyLabel body hnone
    · intro l tails hrem
      rcases hrem.of_append with ⟨ts, hts, -⟩ | hrem
      · rcases hts.of_append with ⟨ts', hts', -⟩ | hts
        · exact absurd hts' (not_remains_of_anyLabel hnone)
        · have hmem := hts.mem_labels
          rw [labels, labels, hlabels] at hmem
          exact absurd hmem List.not_mem_nil
      · exact hrest.found l tails hrem
  cases ho with
  | save | restore | endCall | done => exact hrest
  | @yes cond yes no =>
    refine ⟨clear_append.mpr ⟨h.clear.1.1, hrest.clear⟩, fun l tails hrem => ?_⟩
    rcases hrem.of_append with ⟨ts, hts, heq⟩ | hrem
    · have hbranch : Remains l (.branch cond code no :: rest) (ts ++ [rest]) := .yes hts
      have hfound := h.found l _ hbranch
      rw [List.flatten_concat, ← heq] at hfound
      exact hfound
    · exact hrest.found l tails hrem
  | @no cond yes no =>
    refine ⟨clear_append.mpr ⟨h.clear.1.2, hrest.clear⟩, fun l tails hrem => ?_⟩
    rcases hrem.of_append with ⟨ts, hts, heq⟩ | hrem
    · have hbranch : Remains l (.branch cond yes code :: rest) (ts ++ [rest]) := .no hts
      have hfound := h.found l _ hbranch
      rw [List.flatten_concat, ← heq] at hfound
      exact hfound
    · exact hrest.found l tails hrem
  | «repeat» | «while» | forever => exact hloop h.clear.1 h.clear.1 rfl

end Script

/-! ## 3. Runs of continuations are runs of scripts -/

namespace World

variable {H : Type}

/-- A state of a run of scripts, and the same state in a run of continuations. -/
inductive Uncut : World H → World H → Prop
  | rest (m : Machine H) : Uncut (.rest m) (.rest m)
  | pass (m : Machine H) (length : Nat) (seats : List Nat) :
      Uncut (.pass m length seats) (.pass m length seats)
  | turn (t : Turn H) (l : Label) {code code' : List Stmt} (h : Script.Pruned code code')
      (length : Nat) (seats : List Nat) :
      Uncut (.turn t l code length seats) (.turn t l code' length seats)

variable [Host H]

/-- The statements at hand are alike, and so is what follows them. -/
inductive Heads : Stmt → List Stmt → Stmt → List Stmt → Prop
  | same (s : Stmt) {a b : List Stmt} (h : Script.Pruned a b) : Heads s a s b
  | branch (cond : Expr) {yes yes' no no' a b : List Stmt} (hyes : Script.Pruned yes yes')
      (hno : Script.Pruned no no') (h : Script.Pruned a b) :
      Heads (.branch cond yes no) a (.branch cond yes' no') b
  | last {s : Stmt} (hs : s.isTerminator = true) (a b : List Stmt) : Heads s a s b

/-- Steps of the scripts that are none of the continuations: labels are passed. -/
def Idles (R : Rules) (w : World H) : World H → World H → Prop :=
  Relation.ReflTransGen fun x y => Step R x y ∧ Uncut y w

theorem Idles.label {R : Rules} {t : Turn H} {l : Label} {code code' : List Stmt} {length : Nat}
    {seats : List Nat} {w : World H}
    (h : Idles R (.turn t l code' length seats) (.turn t l code length seats) w)
    (hcode : Script.Pruned code code') (k : Label) :
    Idles R (.turn t l code' length seats) (.turn t l (.label k :: code) length seats) w :=
  .head ⟨.onward (Act.exec_label k t) l code length seats, .turn t l hcode length seats⟩ h

/-- A thread passes the labels before the statement that it has at hand. -/
theorem idles_head {R : Rules} {s : Stmt} {code rest : List Stmt}
    (h : Script.Pruned code (s :: rest)) (t : Turn H) (l : Label) (length : Nat)
    (seats : List Nat) :
    ∃ s₀ rest₀, Idles R (.turn t l (s :: rest) length seats) (.turn t l code length seats)
        (.turn t l (s₀ :: rest₀) length seats) ∧ Heads s₀ rest₀ s rest := by
  generalize hcode : s :: rest = code' at h
  induction h with
  | nil => cases hcode
  | label k hrest ih =>
    obtain ⟨s₀, rest₀, hidle, hheads⟩ := ih hcode
    exact ⟨s₀, rest₀, hidle.label hrest k, hheads⟩
  | same s' h =>
    cases hcode
    exact ⟨_, _, .refl, .same _ h⟩
  | branch cond hyes hno h =>
    cases hcode
    exact ⟨_, _, .refl, .branch cond hyes hno h⟩
  | last hs =>
    cases hcode
    exact ⟨_, _, .refl, .last hs _ _⟩

/-- A thread passes the labels before the end of the statements. -/
theorem idles_nil {R : Rules} {code : List Stmt} (h : Script.Pruned code []) (t : Turn H)
    (l : Label) (length : Nat) (seats : List Nat) :
    Idles R (.turn t l [] length seats) (.turn t l code length seats)
      (.turn t l [] length seats) := by
  generalize hcode : ([] : List Stmt) = code' at h
  induction h with
  | nil => exact .refl
  | label k hrest ih => exact (ih hcode).label hrest k
  | same | branch | last => cases hcode

theorem Heads.leave {s₀ s : Stmt} {rest₀ rest : List Stmt} (h : Heads s₀ rest₀ s rest)
    {t t' : Turn H} {e : Exit} (hexec : Act.exec s t = .ok (.leave e) t') :
    Act.exec s₀ t = .ok (.leave e) t' := by
  cases h with
  | same | last => exact hexec
  | branch => exact absurd hexec Act.exec_branch_not_leave

theorem Heads.error {s₀ s : Stmt} {rest₀ rest : List Stmt} (h : Heads s₀ rest₀ s rest)
    {t t' : Turn H} {e : Fault} (hexec : Act.exec s t = .error e t') :
    Act.exec s₀ t = .error e t' := by
  cases h with
  | same | last => exact hexec
  | branch => exact Act.exec_branch_error hexec

/-- A statement that is alike lets the thread go on alike, unless it ends a procedure and there is
    none to end. -/
theorem Heads.onward {s₀ s : Stmt} {rest₀ rest : List Stmt} (h : Heads s₀ rest₀ s rest)
    {t t' : Turn H} {code : List Stmt} (hexec : Act.exec s t = .ok (.onward code) t')
    (hend : s = .endCall → t.thread.calls ≠ []) :
    ∃ code₀, Act.exec s₀ t = .ok (.onward code₀) t' ∧
      Script.Pruned (code₀ ++ rest₀) (code ++ rest) := by
  cases h with
  | same _ h => exact ⟨code, hexec, (Script.Pruned.refl code).append h⟩
  | branch cond hyes hno h =>
    rcases Act.exec_branch_onward hexec with ⟨rfl, hexec'⟩ | ⟨rfl, hexec'⟩
    · exact ⟨_, hexec', hyes.append h⟩
    · exact ⟨_, hexec', hno.append h⟩
  | last hs =>
    obtain ⟨heq, hcalls⟩ := Act.not_onward_of_isTerminator hs hexec
    exact absurd hcalls (hend heq)

variable {w w' w₁ : World H}

/-- **A step of continuations is a step of the scripts**, once labels are passed. -/
theorem Uncut.step (h : Uncut w' w) (hw : w.Sound (.belonging (Program.Stems source)))
    (hstep : Step .cut w w₁) :
    ∃ w₀ w₁', Idles (.whole source) w w' w₀ ∧ Step (.whole source) w₀ w₁' ∧ Uncut w₁' w₁ := by
  cases hstep with
  | request hr m =>
    cases h
    exact ⟨_, _, .refl, .request hr m, .rest _⟩
  | setClock _ m c =>
    cases h
    exact ⟨_, _, .refl, .setClock trivial m c, .rest _⟩
  | start m =>
    cases h
    exact ⟨_, _, .refl, .start m, .pass _ _ _⟩
  | lapse m =>
    cases h
    exact ⟨_, _, .refl, .lapse m, .rest _⟩
  | skip hready length seats =>
    cases h
    exact ⟨_, _, .refl, .skip hready length seats, .pass _ _ _⟩
  | again hadded hmay =>
    cases h
    exact ⟨_, _, .refl, .again hadded hmay, .pass _ _ _⟩
  | close m length =>
    cases h
    exact ⟨_, _, .refl, .close m length, .rest _⟩
  | @enter m i t target code hready htarget hcode length seats =>
    cases h
    have hstems : target.program.Stems source := hw.sound.program _ _ htarget
    obtain ⟨code₀, hcode₀, hpruned⟩ := hstems.whole hcode
    exact ⟨_, _, .refl, .enter hready htarget hcode₀ length seats, .turn _ _ hpruned _ _⟩
  | @refuse m i t hready hno length seats =>
    cases h
    refine ⟨_, _, .refl, .refuse hready (fun target code htarget hcode => ?_) length seats,
      .rest _⟩
    have hstems : target.program.Stems source := hw.sound.program _ _ htarget
    obtain ⟨code', hcode'⟩ := hstems.cut hcode
    exact hno target code' htarget hcode'
  | @onward s t t' code hexec l rest length seats =>
    cases h with
    | turn _ _ hpruned =>
      obtain ⟨s₀, rest₀, hidle, hheads⟩ :=
        idles_head (R := .whole source) hpruned t l length seats
      obtain ⟨⟨hm, -⟩, ⟨hs, -⟩, hworking⟩ := hw
      obtain ⟨data, hassembled⟩ := program_of_seated hm hs
      obtain ⟨hbelongs, hfitting⟩ := hworking data _ hassembled
      have hend : s = .endCall → t.thread.calls ≠ [] := by
        rintro rfl
        exact Compile.calls_ne_nil_of_endCall hassembled hbelongs hfitting
      obtain ⟨code₀, hexec₀, hpruned₀⟩ := hheads.onward hexec hend
      exact ⟨_, _, hidle, .onward hexec₀ l rest₀ length seats, .turn _ _ hpruned₀ _ _⟩
  | @jump s t t' k code hexec hcode l rest length seats =>
    cases h with
    | turn _ _ hpruned =>
      obtain ⟨s₀, rest₀, hidle, hheads⟩ :=
        idles_head (R := .whole source) hpruned t l length seats
      obtain ⟨⟨hm, -⟩, ⟨hs, -⟩, -⟩ := hw
      have hstems : t'.program.Stems source := by
        rw [(passes_of_exec hexec hm hs).1.program]
        exact program_of_seated hm hs
      obtain ⟨code₀, hcode₀, hpruned₀⟩ := hstems.whole hcode
      exact ⟨_, _, hidle, .jump (hheads.leave hexec) hcode₀ l rest₀ length seats,
        .turn _ _ hpruned₀ _ _⟩
  | @leave s t t' e seat hexec he l rest length seats =>
    cases h with
    | turn _ _ hpruned =>
      obtain ⟨s₀, rest₀, hidle, hheads⟩ :=
        idles_head (R := .whole source) hpruned t l length seats
      exact ⟨_, _, hidle, .leave (hheads.leave hexec) he l rest₀ length seats,
        .pass _ _ _⟩
  | finish t l length seats =>
    cases h with
    | turn _ _ hpruned =>
      exact ⟨_, _, idles_nil hpruned t l length seats, .finish t l length seats,
        .pass _ _ _⟩
  | @fail t t' code hfails l length seats =>
    cases h with
    | turn _ _ hpruned =>
      cases hfails with
      | fault hexec =>
        obtain ⟨s₀, rest₀, hidle, hheads⟩ :=
          idles_head (R := .whole source) hpruned t l length seats
        exact ⟨_, _, hidle, .fail (.fault (hheads.error hexec)) l length seats, .rest _⟩
      | @stray s _ _ rest k hexec hno =>
        obtain ⟨s₀, rest₀, hidle, hheads⟩ :=
          idles_head (R := .whole source) hpruned t l length seats
        obtain ⟨⟨hm, -⟩, ⟨hs, -⟩, -⟩ := hw
        have hstems : t'.program.Stems source := by
          rw [(passes_of_exec hexec hm hs).1.program]
          exact program_of_seated hm hs
        have hnone (code₀ : List Stmt) : ¬ (Rules.whole source).finds t'.program k code₀ := by
          intro hcode₀
          obtain ⟨code', hcode'⟩ := hstems.cut hcode₀
          exact hno code' hcode'
        exact ⟨_, _, hidle, .fail (.stray (hheads.leave hexec) hnone) l length seats,
          .rest _⟩
      | exhausted =>
        exact ⟨_, _, .refl, .fail (.exhausted t _) l length seats, .rest _⟩

/-- **Every run of continuations is a run of scripts.** -/
theorem Reaches.uncut (h : Reaches .cut w w₁) (hw : w.Sound (.belonging (Program.Stems source)))
    (hu : Uncut w' w) : ∃ w₁', Reaches (.whole source) w' w₁' ∧ Uncut w₁' w₁ := by
  induction h with
  | refl => exact ⟨w', .refl, hu⟩
  | tail hrun hstep ih =>
    obtain ⟨w₂, hreach, hu₂⟩ := ih
    obtain ⟨w₀, w₃, hidle, hstep', hu₃⟩ := hu₂.step (Reaches.sound hrun hw) hstep
    have hidle' : Reaches (.whole source) w₂ w₀ :=
      Relation.ReflTransGen.mono (fun _ _ hs => hs.1) _ _ hidle
    exact ⟨w₃, .tail (hreach.trans hidle') hstep', hu₃⟩

end World

/-! ## 4. Threads in sight -/

/-- Where a thread is in a run of scripts, and in a run of continuations. -/
inductive Spot.Uncut : Spot → Spot → Prop
  | seat (t : Thread) : Uncut (.seat t) (.seat t)
  | work (t : Thread) (l : Label) {code code' : List Stmt} (h : Script.Pruned code code') :
      Uncut (.work t l code) (.work t l code')

theorem Spot.Uncut.thread {x' x : Spot} (h : Uncut x' x) : x'.thread = x.thread := by
  cases h <;> rfl

/-- A thread in a run of scripts, and in a run of continuations. -/
structure Sighting.Uncut {H : Type} (a' a : Sighting H) : Prop where
  world : World.Uncut a'.world a.world
  program : a'.program = a.program
  spot : Spot.Uncut a'.spot a.spot

namespace Sighting

variable {H : Type} {w' : World H} {a b a' : Sighting H}

/-- A thread of a state is also in the same state of a run of scripts. -/
theorem exists_uncut (h : World.Uncut w' a.world) : ∃ a', a'.world = w' ∧ Uncut a' a := by
  obtain ⟨w, p, x, hx⟩ := a
  cases hx with
  | seat hwaits =>
    have hsame : w'.machine = w.machine := by
      cases h <;> rfl
    rw [← hsame] at hwaits
    exact ⟨⟨w', p, _, .seat hwaits⟩, rfl, h, rfl, .seat _⟩
  | work t l code length seats =>
    cases h with
    | turn _ _ hpruned =>
      exact ⟨⟨_, _, _, .work t l _ length seats⟩, rfl, .turn _ _ hpruned _ _, rfl,
        .work _ l hpruned⟩

variable [Host H]

/-- While labels are passed a thread stays in sight. -/
theorem Uncut.idles {R : Rules} {depth : Nat} (hu : Uncut a' a) (hdepth : depth ≤ a.spot.depth)
    (h : World.Idles R a.world a'.world w') :
    ∃ b', b'.world = w' ∧ Uncut b' a ∧ Within R depth a' b' := by
  induction h with
  | refl => exact ⟨a', rfl, hu, .refl⟩
  | tail _ hstep ih =>
    obtain ⟨b', rfl, hub, hwithin⟩ := ih
    obtain ⟨c', rfl, huc⟩ := exists_uncut hstep.2
    have hthread : c'.spot.thread = b'.spot.thread := huc.spot.thread.trans hub.spot.thread.symm
    refine ⟨c', rfl, huc, .tail hwithin ⟨⟨hstep.1, ?_⟩, ?_⟩⟩
    · rw [hthread]
      exact .refl _
    · rw [Spot.depth, huc.spot.thread]
      exact hdepth

/-- **A thread that is followed in a run of continuations is followed in one of scripts.** -/
theorem Within.uncut {depth : Nat} (h : Within .cut depth a b) (hdepth : depth ≤ a.spot.depth)
    (hu : Uncut a' a) (ha : a.world.Sound (.belonging (Program.Stems source))) :
    ∃ b', Within (.whole source) depth a' b' ∧ Uncut b' b := by
  induction h with
  | refl => exact ⟨a', .refl, hu⟩
  | @tail b c hrun hstep ih =>
    obtain ⟨b', hwithin, hub⟩ := ih
    have hsound := World.Reaches.sound (Within.reaches hrun) ha
    obtain ⟨w₀, w₁, hidle, hstep', huw⟩ := hub.world.step hsound hstep.1.1
    obtain ⟨b₀, rfl, hub₀, hpassed⟩ := hub.idles (Within.le_depth hrun hdepth) hidle
    obtain ⟨c', rfl, huc⟩ := exists_uncut huw
    refine ⟨c', .tail (hwithin.trans hpassed) ⟨⟨hstep', ?_⟩, ?_⟩, huc⟩
    · rw [hub₀.spot.thread, huc.spot.thread]
      exact hstep.1.2
    · rw [Spot.depth, huc.spot.thread]
      exact hstep.2

end Sighting

end BlockScript
