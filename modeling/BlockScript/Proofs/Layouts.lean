import BlockScript.Proofs.Closure
import BlockScript.Proofs.Control
import Mathlib.Tactic.Choose

/-!
# Layouts of programs

What is known about each label of a program: how many copies of the registers are saved when a
thread is there, and whether it stands in a procedure. A thread that keeps to a layout never takes a
copy back that it did not save, and never leaves a procedure that it is not in.

* `Layout.Describes`: a layout of a program; each compiled program has one (`sound_compile`);
* `Layout.Resumes`: a thread that can go on at a label;
* `Layout.Runs`: a thread that can go on with some statements;
* `Layout.Runs.onward`, `Layout.Runs.departs`: it keeps to the layout, whatever comes next.
-/

namespace BlockScript

open Script (labels nodes Leveled)

/-! ## 1. Programs -/

/-- How many copies of the registers are saved at each label, and which labels stand in
    procedures. -/
structure Layout where
  level : Label → Nat
  inside : Label → Prop

/-- What a statement may name if the end of a procedure is there only under a condition. -/
def Stmt.Named (y : Layout) (p : Program) (within : Prop) (s : Stmt) : Prop :=
  ∃ own, (own.isSome = true → within) ∧
    s.Fits p.procedures own fun l => (∃ c, p.continuation? l = some c) ∧ (y.inside l → within)

theorem Stmt.Named.mono {y : Layout} {p : Program} {within within' : Prop} {s : Stmt}
    (h : s.Named y p within) (hw : within → within') : s.Named y p within' := by
  obtain ⟨own, hown, hfits⟩ := h
  exact ⟨own, fun h => hw (hown h), hfits.mono fun l hl => ⟨hl.1, fun h => hw (hl.2 h)⟩⟩

/-- A layout of a program. Procedures and scripts start with nothing saved. -/
structure Layout.Describes (y : Layout) (p : Program) : Prop where
  leveled : ∀ l c, p.continuation? l = some c → ∃ e, Leveled y.level (y.level l) c.body e
  named : ∀ l c, p.continuation? l = some c → ∀ s ∈ nodes c.body, s.Named y p (y.inside l)
  procedure : ∀ id q, p.procedure? id = some q →
    (∃ c, p.continuation? q.entry = some c) ∧ y.level q.entry = 0
  listener : ∀ e, ∀ l ∈ p.listening e,
    (∃ c, p.continuation? l = some c) ∧ y.level l = 0 ∧ ¬ y.inside l

/-- The program has a layout. -/
def Program.Sound (p : Program) : Prop := ∃ y : Layout, y.Describes p

/-- A key starts those that wait for it or for any key. -/
theorem Program.mem_startedBy {p : Program} {e : Event} {l : Label} (h : l ∈ p.startedBy e) :
    ∃ e', l ∈ p.listening e' := by
  unfold Program.startedBy at h
  split at h
  · split at h
    · exact ⟨_, h⟩
    · rcases List.mem_append.mp h with h | h
      · exact ⟨_, h⟩
      · exact ⟨_, h⟩
  · exact ⟨_, h⟩

namespace Compile

variable {t : TargetData} {ss : List Labelled} {p : Program}

/-- The scripts of a target agree on one choice of levels. -/
theorem exists_level {count : Nat} (h : Scripts t ss count) :
    ∃ level : Label → Nat, ∀ s ∈ ss, Leveled level 0 s.body 0 := by
  classical
  have hown : ∀ s ∈ ss, ∃ level : Label → Nat, ∀ level',
      (∀ l ∈ labels s.body, level' l = level l) → Leveled level' 0 s.body 0 :=
    fun s hs => (h.whole s hs).leveled
  choose! own hown using hown
  refine ⟨fun l => if hl : ∃ s ∈ ss, l ∈ labels s.body then own hl.choose l else 0, fun s hs => ?_⟩
  refine hown s hs _ fun l hl => ?_
  have hex : ∃ s ∈ ss, l ∈ labels s.body := ⟨s, hs, hl⟩
  have hsame : hex.choose = s :=
    script_unique h hs hex.choose_spec.1 hl hex.choose_spec.2
  rw [dif_pos hex, hsame]

/-- The entry of a script has nothing saved. -/
theorem level_entry {procedures : List Procedure} {s : Labelled} (hs : Whole procedures s)
    {level : Label → Nat} (h : Leveled level 0 s.body 0) : level s.entry = 0 := by
  obtain ⟨rest, hrest⟩ := hs.starts
  rw [hrest] at h
  cases h with
  | steady hsteady => cases hsteady
  | label hl => exact hl

/-- Each procedure has a script. -/
theorem exists_script {count : Nat} (h : Scripts t ss count) {id : ProcId} {q : Procedure}
    (hq : (procedures t)[id]? = some q) :
    ∃ s ∈ ss, s.trigger = .procedure id ∧ s.entry = q.entry := by
  have hid : id < (definitions t).length := by
    rw [← List.length_map (·.procedure)]
    exact (List.getElem?_eq_some_iff.mp hq).1
  have hmem := (perm_procedureIds t).mem_iff.mpr (List.mem_range.mpr hid)
  obtain ⟨hat, hhat, hproc⟩ := List.mem_filterMap.mp hmem
  have htrigger : hat.1 = .procedure id := procedure?_eq_some.mp hproc
  have hmap : Trigger.procedure id ∈ ss.map (·.trigger) := by
    rw [h.triggers, ← htrigger]
    exact List.mem_map_of_mem hhat
  obtain ⟨s, hs, heq⟩ := List.mem_map.mp hmap
  obtain ⟨q', hq', hentry⟩ := (h.whole s hs).own id heq
  rw [hq] at hq'
  cases hq'
  exact ⟨s, hs, heq, hentry.symm⟩

/-- A script that waits for an event defines no procedure. -/
theorem mem_waiting {e : Event} {l : Label} (h : (e, l) ∈ waiting ss) :
    ∃ s ∈ ss, s.trigger = .event e ∧ s.entry = l := by
  obtain ⟨s, hs, heq⟩ := List.mem_filterMap.mp h
  obtain ⟨e', he', heq⟩ := Option.map_eq_some_iff.mp heq
  cases heq
  refine ⟨s, hs, ?_, rfl⟩
  cases htrigger : s.trigger with
  | event e'' =>
    rw [htrigger] at he'
    cases he'
    rfl
  | procedure id =>
    rw [htrigger] at he'
    cases he'

/-- **A program that is put together from scripts has a layout.** -/
theorem Assembled.sound (h : Assembled t ss p) : p.Sound := by
  obtain ⟨level, hlevel⟩ := exists_level h.scripts
  have hclosed := h.closed
  have hentry {s : Labelled} (hs : s ∈ ss) :
      (∃ c, p.continuation? s.entry = some c) ∧ level s.entry = 0 :=
    ⟨hclosed.inRange s hs _ (entry_mem_labels (h.scripts.whole s hs)),
      level_entry (h.scripts.whole s hs) (hlevel s hs)⟩
  refine ⟨⟨level, fun l => ∃ s ∈ ss, l ∈ labels s.body ∧
    (s.trigger.own p.procedures).isSome = true⟩, ?_, ?_, ?_, ?_⟩
  · intro l c hc
    obtain ⟨-, s, hs, hl, hbody⟩ := h.continuation l c hc
    rw [hbody]
    exact ⟨0, (hlevel s hs).bodyAt hl⟩
  · intro l c hc x hx
    obtain ⟨-, s, hs, hl, hbody⟩ := h.continuation l c hc
    rw [hbody] at hx
    have hfits := Script.forall_nodes_bodyAt (fun cond yes no yes' no' hbranch => hbranch) hl
      (h.scripts.whole s hs).fits x hx
    rw [← h.procedures] at hfits
    refine ⟨s.trigger.own p.procedures, fun hown => ⟨s, hs, hl, hown⟩, hfits.mono ?_⟩
    intro k hk
    refine ⟨hclosed.inRange s hs k hk, ?_⟩
    rintro ⟨s', hs', hk', hown⟩
    rw [script_unique h.scripts hs hs' hk hk'] at hown
    exact ⟨s, hs, hl, hown⟩
  · intro id q hq
    rw [Program.procedure?, h.procedures] at hq
    obtain ⟨s, hs, -, heq⟩ := exists_script h.scripts hq
    rw [← heq]
    exact hentry hs
  · intro e l hl
    rw [hclosed.listening e] at hl
    obtain ⟨w, hw, rfl⟩ := List.mem_map.mp hl
    obtain ⟨s, hs, htrigger, heq⟩ := mem_waiting (List.mem_filter.mp hw).1
    rw [← heq]
    refine ⟨(hentry hs).1, (hentry hs).2, ?_⟩
    rintro ⟨s', hs', hl', hown⟩
    rw [script_unique h.scripts hs hs' (entry_mem_labels (h.scripts.whole s hs)) hl',
      htrigger] at hown
    cases hown

/-- **Each compiled program has a layout.** -/
theorem sound_compile {stage : Option TargetData} (h : t.compile stage = .ok p) : p.Sound := by
  obtain ⟨ss, count, -, hassembled⟩ := assembled_of_compile h
  exact hassembled.sound

end Compile

/-! ## 2. Threads -/

/-- The copies that were saved since the innermost call. -/
def Call.savedIn (saved : List Registers) : List Call → List Registers
  | [] => saved
  | c :: _ => c.saved

theorem Thread.saveStack_eq (t : Thread) : t.saveStack = Call.savedIn t.saved t.calls := by
  unfold Thread.saveStack
  cases t.calls <;> rfl

theorem Thread.saveStack_withSaveStack (t : Thread) (saved : List Registers) :
    (t.withSaveStack saved).saveStack = saved := by
  unfold Thread.withSaveStack Thread.saveStack
  cases t.calls <;> rfl

namespace Layout

variable {y : Layout} {p : Program}

/-- A label at which calls with these copies can stand. -/
structure Stands (y : Layout) (p : Program) (saved : List Registers) (calls : List Call)
    (l : Label) : Prop where
  continuation : ∃ c, p.continuation? l = some c
  inside : y.inside l → calls ≠ []
  level : y.level l = (Call.savedIn saved calls).length

/-- Each of the calls goes on, when the one inside it ends, at a label at which it can stand. -/
def Backed (y : Layout) (p : Program) (saved : List Registers) : List Call → Prop
  | [] => True
  | c :: rest => y.Stands p saved rest c.resume ∧ y.Backed p saved rest

/-- The thread can go on at a label. -/
structure Resumes (y : Layout) (p : Program) (t : Thread) (l : Label) : Prop where
  stands : y.Stands p t.saved t.calls l
  backed : y.Backed p t.saved t.calls

/-- The thread can go on with some statements. -/
structure Runs (y : Layout) (p : Program) (t : Thread) (code : List Stmt) : Prop where
  leveled : ∃ e, Leveled y.level t.saveStack.length code e
  named : ∀ s ∈ nodes code, s.Named y p (t.calls ≠ [])
  backed : y.Backed p t.saved t.calls

/-- At a label the thread goes on with the statements there. -/
theorem Resumes.runs (hy : y.Describes p) {t : Thread} {l : Label} (h : y.Resumes p t l)
    {c : Script.Continuation} (hc : p.continuation? l = some c) : y.Runs p t c.body := by
  refine ⟨?_, fun s hs => (hy.named l c hc s hs).mono h.stands.inside, h.backed⟩
  rw [t.saveStack_eq, ← h.stands.level]
  exact hy.leveled l c hc

/-- A thread at the start of a script can go on there. -/
theorem resumes_start (hy : y.Describes p) {e : Event} {l : Label} (hl : l ∈ p.startedBy e)
    (target : TargetId) (group : GroupId) : y.Resumes p (.start target l group) l := by
  obtain ⟨e', hl'⟩ := Program.mem_startedBy hl
  obtain ⟨hc, hlevel, hinside⟩ := hy.listener e' l hl'
  exact ⟨⟨hc, fun h => absurd h hinside, hlevel⟩, trivial⟩

section Kin

variable {saved : List Registers} {calls calls' : List Call}

theorem savedIn_kin (h : List.Forall₂ Call.Kin calls calls') :
    Call.savedIn saved calls' = Call.savedIn saved calls := by
  cases h with
  | nil => rfl
  | cons hc _ => exact hc.saved

theorem ne_nil_kin (h : List.Forall₂ Call.Kin calls calls') (hne : calls ≠ []) : calls' ≠ [] := by
  cases h with
  | nil => exact hne
  | cons => exact List.cons_ne_nil _ _

theorem Stands.kin {l : Label} (hs : y.Stands p saved calls l)
    (h : List.Forall₂ Call.Kin calls calls') : y.Stands p saved calls' l := by
  refine ⟨hs.continuation, fun hl => ne_nil_kin h (hs.inside hl), ?_⟩
  rw [savedIn_kin h]
  exact hs.level

theorem Backed.kin (hb : y.Backed p saved calls) (h : List.Forall₂ Call.Kin calls calls') :
    y.Backed p saved calls' := by
  induction h with
  | nil => trivial
  | cons hc hrest ih =>
    obtain ⟨hstands, hbacked⟩ := hb
    refine ⟨?_, ih hbacked⟩
    rw [hc.resume]
    exact hstands.kin hrest

end Kin

/-- Copies that are saved or taken back are those of the innermost call. -/
theorem Backed.withSaveStack {t : Thread} (h : y.Backed p t.saved t.calls)
    (saved : List Registers) :
    y.Backed p (t.withSaveStack saved).saved (t.withSaveStack saved).calls := by
  unfold Thread.withSaveStack
  cases hc : t.calls with
  | nil => exact trivial
  | cons c rest =>
    rw [hc] at h
    exact h

/-! ## 3. Steps -/

/-- The copies after a step are as many as the layout says. -/
theorem leveled_onward {level : Label → Nat} {t t' : Thread} {s : Stmt} {rest code : List Stmt}
    {d e : Nat} (h : Leveled level d (s :: rest) e) (hd : t.saveStack.length = d)
    (ho : Act.Onward s t code t') (hend : s = .endCall → t.calls ≠ []) :
    Leveled level t'.saveStack.length (code ++ rest) e := by
  cases ho with
  | save =>
    rw [Thread.save, Thread.saveStack_withSaveStack, List.length_cons, hd]
    cases h with
    | steady hs => cases hs
    | save hrest => exact hrest
  | restore hr =>
    obtain ⟨rs, copies, hstack, rfl⟩ := Thread.exists_of_restore? hr
    have hcopies : Thread.saveStack { t.withSaveStack copies with registers := rs } = copies :=
      t.saveStack_withSaveStack copies
    rw [hstack, List.length_cons] at hd
    rw [hcopies]
    cases h with
    | steady hs => cases hs
    | restore hrest =>
      rw [Nat.succ.inj hd]
      exact hrest
  | endCall hcalls => exact absurd hcalls (hend rfl)
  | done hterm hstack hbranch hk =>
    rw [hk.saveStack, hd]
    cases h with
    | steady _ hrest | label _ hrest | «repeat» _ hrest | «while» _ hrest | forever _ hrest =>
      exact hrest
    | save | restore | call | endCall => cases hstack
    | queue | forceQueue | «return» => cases hterm
    | branch => exact absurd rfl (hbranch _ _ _)
  | yes hk =>
    rw [hk.saveStack, hd]
    cases h with
    | steady hs => cases hs
    | branch hyes _ hrest => exact hyes.append hrest
  | no hk =>
    rw [hk.saveStack, hd]
    cases h with
    | steady hs => cases hs
    | branch _ hno hrest => exact hno.append hrest
  | «repeat» left hk =>
    rw [hk.saveStack, hd, List.append_assoc]
    cases h with
    | steady hs => cases hs
    | «repeat» hbody hrest => exact hbody.append (.repeat hbody hrest)
  | «while» hk =>
    rw [hk.saveStack, hd, List.append_assoc]
    cases h with
    | steady hs => cases hs
    | «while» hbody hrest => exact hbody.append (.while hbody hrest)
  | forever =>
    rw [hd, List.append_assoc]
    cases h with
    | steady hs => cases hs
    | forever hbody hrest => exact hbody.append (.forever hbody hrest)

/-- The calls after a step go on where they did before. -/
theorem Backed.onward {t t' : Thread} {s : Stmt} {code : List Stmt}
    (h : y.Backed p t.saved t.calls) (ho : Act.Onward s t code t') :
    y.Backed p t'.saved t'.calls := by
  have hkin {t' : Thread} (hk : Thread.Kin t t') : y.Backed p t'.saved t'.calls := by
    rw [hk.saved]
    exact h.kin hk.calls
  cases ho with
  | save => exact h.withSaveStack _
  | restore hr =>
    obtain ⟨_, _, -, rfl⟩ := Thread.exists_of_restore? hr
    exact h.withSaveStack _
  | endCall | forever => exact h
  | done _ _ _ hk | yes hk | no hk | «repeat» _ hk | «while» hk => exact hkin hk

/-- **A thread that goes on keeps to the layout.** -/
theorem Runs.onward {t t' : Thread} {s : Stmt} {rest code : List Stmt}
    (h : y.Runs p t (s :: rest)) (ho : Act.Onward s t code t') : y.Runs p t' (code ++ rest) := by
  obtain ⟨hnodes, hrest⟩ := Script.forall_nodes_cons.mp h.named
  obtain ⟨e, hlevel⟩ := h.leveled
  have hcalls (hne : t.calls ≠ []) : t'.calls ≠ [] := by
    have hlen := ho.length_calls
    intro hnil
    rw [hnil] at hlen
    exact hne (List.length_eq_zero_iff.mp hlen.symm)
  have hend (hs : s = .endCall) : t.calls ≠ [] := by
    obtain ⟨own, hown, hfits⟩ := hnodes s (Script.mem_nodesOf_self s)
    rw [hs] at hfits
    exact hown hfits.2
  refine ⟨⟨e, leveled_onward hlevel rfl ho hend⟩, ?_, h.backed.onward ho⟩
  refine Script.forall_nodes_append.mpr ⟨ho.forall_nodes ?_ fun n hn => (hnodes n hn).mono hcalls,
    fun n hn => (hrest n hn).mono hcalls⟩
  -- a loop that counts down names what it named before
  rintro times left body ⟨own, hown, hfits⟩
  refine ⟨own, hown, ?_, hfits.2⟩
  exact List.forall_mem_singleton.mpr trivial

/-- **A thread that leaves for a label can go on there.** -/
theorem Runs.departs (hy : y.Describes p) {t t' : Thread} {s : Stmt} {rest : List Stmt} {l : Label}
    (h : y.Runs p t (s :: rest)) (hd : Act.Departs p s t l t') : y.Resumes p t' l := by
  obtain ⟨hnodes, -⟩ := Script.forall_nodes_cons.mp h.named
  obtain ⟨own, hown, hfits⟩ := hnodes s (Script.mem_nodesOf_self s)
  obtain ⟨e, hlevel⟩ := h.leveled
  have hstack := t.saveStack_eq
  generalize hlen : t.saveStack.length = d at hlevel
  rw [hstack] at hlen
  cases hd with
  | queue =>
    cases hlevel with
    | steady hs => cases hs
    | queue hl => exact ⟨⟨hfits.2.1, hfits.2.2, hl.trans hlen.symm⟩, h.backed⟩
  | forceQueue =>
    cases hlevel with
    | steady hs => cases hs
    | forceQueue hl => exact ⟨⟨hfits.2.1, hfits.2.2, hl.trans hlen.symm⟩, h.backed⟩
  | endCall hend =>
    have hbacked := h.backed
    obtain ⟨c, calls, hcalls, rfl, rfl⟩ := Thread.exists_of_endCall? hend
    rw [hcalls] at hbacked
    exact ⟨hbacked.1, hbacked.2⟩
  | @call id args resume q _ caller values hq hk =>
    obtain ⟨⟨hresume, hinside⟩, -⟩ := hfits.2
    obtain ⟨hentry, hzero⟩ := hy.procedure _ _ hq
    cases hlevel with
    | steady hs => cases hs
    | call hl =>
      have hcaller : y.Stands p t.saved t.calls resume := ⟨hresume, hinside, hl.trans hlen.symm⟩
      refine ⟨⟨hentry, fun _ => List.cons_ne_nil _ _, hzero⟩, ?_, ?_⟩
      · show y.Stands p caller.saved caller.calls resume
        rw [hk.saved]
        exact hcaller.kin hk.calls
      · show y.Backed p caller.saved caller.calls
        rw [hk.saved]
        exact h.backed.kin hk.calls

end Layout

end BlockScript
