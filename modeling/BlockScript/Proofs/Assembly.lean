import BlockScript.Proofs.Bodies
import BlockScript.Proofs.Hats

/-!
# How a program is put together

The scripts of a target take all labels up to a number, and each of them stands in one place of one
script. So every script can be cut, and the parts are one continuation for each label.

* `Whole`: what a script is like before it is cut;
* `Scripts`: what the scripts of a target are like (`gives_scripts`);
* `Assembled`: what a program has from the scripts (`yields_compile`).
-/

namespace BlockScript.Compile

open Script (Emitted Fragment Continuation labels nodes Clear Leveled bodyAt)

/-! ## 1. Contexts -/

/-- The procedures of a target. -/
def procedures (t : TargetData) : List Procedure := (definitions t).map (·.procedure)

/-- The procedure that the script defines, among those of its target. -/
def Trigger.own (procedures : List Procedure) (trigger : Trigger) : Option Procedure :=
  trigger.procedure?.bind (procedures[·]?)

variable {t : TargetData} {stage : Option TargetData}

theorem nodup_proccodes (t : TargetData) : ((procedures t).map (·.proccode)).Nodup := by
  rw [procedures, List.map_map]
  exact (defined_definitions t).codes

theorem params_scope (t : TargetData) (stage : Option TargetData) :
    (Scope.of t stage).params = [] := by
  unfold Scope.of
  split <;> rfl

/-- Outside of procedures there are no arguments and no native loops. -/
theorem proper_context (t : TargetData) (stage : Option TargetData) :
    (Context.of t stage (procedures t)).Proper where
  isSome_own := rfl
  params := congrArg List.length (params_scope t stage)
  warp := nofun
  named code id h := by
    obtain ⟨p, hp, -⟩ := (Procedure.get?_index (nodup_proccodes t)).mp h
    exact ⟨p, hp⟩

/-- Inside of a procedure the context is that of the procedure. -/
theorem proper_enter {id : ProcId} {p : Procedure} (hp : (procedures t)[id]? = some p) :
    ((Context.of t stage (procedures t)).enter id p).own = some p ∧
      ((Context.of t stage (procedures t)).enter id p).Proper := by
  have hown : ((Context.of t stage (procedures t)).enter id p).own = some p := hp
  refine ⟨hown, ?_, ?_, fun hwarp => ⟨p, hown, hwarp⟩, (proper_context t stage).named⟩
  · rw [hown]
    rfl
  · rw [hown]
    rfl

/-! ## 2. Scripts -/

/-- A script before it is cut. It begins with its entry, its labels stand once each, what it names
    is there, and at each place the same number of copies of the registers is saved, none at its
    start. -/
structure Whole (procedures : List Procedure) (s : Labelled) : Prop where
  own : ∀ id, s.trigger = .procedure id → ∃ p, procedures[id]? = some p ∧ p.entry = s.entry
  /-- After its entry it is code of the grammar. -/
  emitted : ∃ n code n', s.body = .label s.entry :: code ∧
    Emitted procedures (s.trigger.own procedures) n code n' ∧ ¬ Script.Between n n' s.entry
  nodup : (labels s.body).Nodup
  clear : Clear s.body
  fits : ∀ x ∈ nodes s.body, x.Fits procedures (s.trigger.own procedures) (· ∈ labels s.body)
  leveled : ∃ level : Label → Nat, ∀ level',
    (∀ l ∈ labels s.body, level' l = level l) → Leveled level' 0 s.body 0

/-- The labels of a fragment are those from its first on. -/
theorem perm_labels {procedures : List Procedure} {own : Option Procedure} {n n' : Nat}
    {code : List Stmt} (h : Fragment procedures own n code n') :
    (labels code).Perm (List.range' n (n' - n)) := by
  refine (List.perm_ext_iff_of_nodup h.nodup List.nodup_range').mpr fun l => ?_
  have hle := h.le
  rw [List.mem_range'_1]
  refine (h.mem_labels l).trans ?_
  unfold Script.Between
  omega

/-- Code of the grammar behind an entry is a whole script. -/
theorem whole_of_emitted {procedures : List Procedure} {trigger : Trigger} {entry n n' : Nat}
    {code : List Stmt} (hcode : Emitted procedures (trigger.own procedures) n code n')
    (hentry : ¬ Script.Between n n' entry)
    (hown : ∀ id, trigger = .procedure id → ∃ p, procedures[id]? = some p ∧ p.entry = entry) :
    Whole procedures ⟨trigger, entry, .label entry :: code⟩ := by
  have h := hcode.fragment
  refine ⟨hown, ⟨n, code, n', rfl, hcode, hentry⟩, ?_, ⟨trivial, h.clear⟩, ?_, ?_⟩
  · exact List.nodup_cons.mpr ⟨fun hmem => hentry ((h.mem_labels entry).mp hmem), h.nodup⟩
  · refine Script.forall_nodes_cons.mpr ⟨(Script.forall_nodesOf_leaf rfl).mpr Stmt.fits_label, ?_⟩
    intro x hx
    exact (h.fits x hx).mono fun l hl => List.mem_cons_of_mem _ ((h.mem_labels l).mpr hl)
  · obtain ⟨level, hlevel⟩ := h.leveled 0
    refine ⟨fun l => if l = entry then 0 else level l, fun level' hagree => ?_⟩
    refine .label ((hagree entry List.mem_cons_self).trans (if_pos rfl)) (hlevel level' ?_)
    intro l hl
    have hne : l ≠ entry := fun heq => hentry (heq ▸ hl)
    exact (hagree l (List.mem_cons_of_mem _ ((h.mem_labels l).mpr hl))).trans (if_neg hne)

theorem Whole.starts {procedures : List Procedure} {s : Labelled} (h : Whole procedures s) :
    ∃ rest, s.body = .label s.entry :: rest := by
  obtain ⟨-, code, -, hbody, -⟩ := h.emitted
  exact ⟨code, hbody⟩

/-- Where the labels of a script come from: the number of its procedure, and fresh ones. -/
structure Numbered (procedures : List Procedure) (start : Trigger) (n : Nat) (s : Labelled)
    (n' : Nat) : Prop where
  le : n ≤ n'
  trigger : s.trigger = start
  whole : procedures.length ≤ n → Whole procedures s
  labels : (labels s.body).Perm (start.procedure?.toList ++ List.range' n (n' - n))

/-- The script of an event takes its entry first. -/
theorem gives_event (e : Event) (hat : Block) (n : Nat) :
    Gives (Excused t) n (Numbered (procedures t) (.event e) n)
      (script (Context.of t stage (procedures t)) (.event e) hat) := by
  refine .fresh (.bind (emits_stackOf (proper_context t stage) hat.next (n + 1)) ?_)
  intro body m hbody
  have hcode : Emitted (procedures t) none (n + 1) (body ++ [.return]) m :=
    hbody.append (.return m)
  have hle := hcode.fragment.le
  refine .pure ⟨Nat.le_of_succ_le hle, rfl, fun _ => ?_, ?_⟩
  · refine whole_of_emitted hcode (fun h => ?_) nofun
    exact Nat.not_succ_le_self n h.1
  · have hlen : m - n = (m - (n + 1)) + 1 := by omega
    rw [hlen, List.range'_succ]
    exact (perm_labels hcode.fragment).cons n

/-- The script of a procedure has the number of the procedure as its entry. -/
theorem gives_procedure {id : ProcId} {p : Procedure} (hp : (procedures t)[id]? = some p)
    (hentry : p.entry = id) (hat : Block) (n : Nat) :
    Gives (Excused t) n (Numbered (procedures t) (.procedure id) n)
      (script (Context.of t stage (procedures t)) (.procedure id) hat) := by
  obtain ⟨hown, hproper⟩ := @proper_enter t stage id p hp
  have hget : (procedures t).getD id ⟨"", 0, false, []⟩ = p := by
    rw [List.getD_eq_getElem?_getD, hp]
    rfl
  unfold script
  dsimp only
  rw [show (Context.of t stage (procedures t)).procedures = procedures t from rfl, hget]
  refine .bind (emits_stackOf hproper hat.next n) ?_
  intro body m hbody
  rw [hown] at hbody
  have hend : Emitted (procedures t) (some p) m ([.endCall] ++ [.return]) m :=
    .append (.endCall rfl m) (.return m)
  have hcode : Emitted (procedures t) (some p) n (body ++ [.endCall, .return]) m :=
    hbody.append hend
  have hown' : (Trigger.procedure id).own (procedures t) = some p := hp
  have hid : id < (procedures t).length := (List.getElem?_eq_some_iff.mp hp).1
  refine .pure ⟨hcode.fragment.le, rfl, fun hn => ?_, ?_⟩
  · rw [← hown'] at hcode
    refine whole_of_emitted hcode (fun h => ?_) fun id' heq => ?_
    · have hlt : id < n := Nat.lt_of_lt_of_le hid hn
      rw [hentry] at h
      exact Nat.not_lt.mpr h.1 hlt
    · cases heq
      exact ⟨p, hp, rfl⟩
  · rw [hentry]
    exact (perm_labels hcode.fragment).cons id

/-- The script of each hat is whole, and takes the labels that are its own. -/
theorem gives_script {hat : Trigger × Block} (hhat : hat ∈ hats t) (n : Nat) :
    Gives (Excused t) n (Numbered (procedures t) hat.1 n)
      (script (Context.of t stage (procedures t)) hat.1 hat.2) := by
  obtain ⟨trigger, b⟩ := hat
  cases trigger with
  | event e => exact gives_event e b n
  | procedure id =>
    obtain ⟨top, -, htop⟩ := List.mem_filterMap.mp hhat
    obtain ⟨tr, htr, heq⟩ := Option.map_eq_some_iff.mp htop
    cases heq
    obtain ⟨-, d, hd, -⟩ := trigger?_eq_procedure.mp htr
    refine gives_procedure (p := d.procedure) ?_ ((defined_definitions t).entry id d hd) top.2 n
    rw [procedures, List.getElem?_map, hd]
    rfl

/-- The scripts of a target: one for each hat, all of them whole, and the labels of all together
    are the first so many. -/
structure Scripts (t : TargetData) (ss : List Labelled) (count : Nat) : Prop where
  triggers : ss.map (·.trigger) = (hats t).map (·.1)
  whole : ∀ s ∈ ss, Whole (procedures t) s
  labels : (ss.flatMap fun s => labels s.body).Perm (List.range count)

/-- The scripts of some hats, from a label on. -/
structure Row (procedures : List Procedure) (row : List (Trigger × Block)) (n : Nat)
    (ss : List Labelled) (n' : Nat) : Prop where
  le : n ≤ n'
  triggers : ss.map (·.trigger) = row.map (·.1)
  whole : procedures.length ≤ n → ∀ s ∈ ss, Whole procedures s
  labels : (ss.flatMap fun s => labels s.body).Perm (procedureIds row ++ List.range' n (n' - n))

theorem Row.nil (procedures : List Procedure) (n : Nat) : Row procedures [] n [] n where
  le := Nat.le_refl n
  triggers := rfl
  whole _ _ h := absurd h List.not_mem_nil
  labels := by
    rw [Nat.sub_self]
    exact .refl []

/-- One more script in front. -/
theorem Row.cons {procedures : List Procedure} {hat : Trigger × Block}
    {row : List (Trigger × Block)} {n m n' : Nat} {s : Labelled} {ss : List Labelled}
    (hs : Numbered procedures hat.1 n s m) (h : Row procedures row m ss n') :
    Row procedures (hat :: row) n (s :: ss) n' := by
  have hle := hs.le
  have hle' := h.le
  refine ⟨Nat.le_trans hle hle', ?_, fun hn => ?_, ?_⟩
  · rw [List.map_cons, List.map_cons, hs.trigger, h.triggers]
  · exact List.forall_mem_cons.mpr ⟨hs.whole hn, h.whole (Nat.le_trans hn hle)⟩
  · have hids : procedureIds (hat :: row) = hat.1.procedure?.toList ++ procedureIds row := by
      unfold procedureIds
      rw [List.filterMap_cons]
      cases hat.1.procedure? <;> rfl
    have hrange : List.range' n (n' - n) = List.range' n (m - n) ++ List.range' m (n' - m) := by
      have hm : m = n + (m - n) := by omega
      have hlen : n' - n = (m - n) + (n' - m) := by omega
      rw [hlen, ← List.range'_append_1, ← hm]
    rw [List.flatMap_cons, hids, hrange]
    refine (hs.labels.append h.labels).trans ?_
    -- the fresh labels of the first script change places with the procedures of the others
    rw [List.append_assoc, List.append_assoc]
    refine List.Perm.append_left _ ?_
    rw [← List.append_assoc, ← List.append_assoc]
    exact List.Perm.append_right _ List.perm_append_comm

theorem range_append {base count : Nat} (h : base ≤ count) :
    List.range base ++ List.range' base (count - base) = List.range count := by
  have happend := @List.range'_append_1 0 base (count - base)
  rw [Nat.zero_add, Nat.add_sub_cancel' h] at happend
  rw [List.range_eq_range', List.range_eq_range']
  exact happend

/-- **The scripts of a target are whole, and each label stands in one place of one of them.** -/
theorem gives_scripts (t : TargetData) (stage : Option TargetData) :
    Gives (Excused t) (definitions t).length (Scripts t) (scripts t stage) := by
  have hrow : Gives (Excused t) (definitions t).length
      (Row (procedures t) (hats t) (definitions t).length) (scripts t stage) := by
    refine Gives.mapM (Row.nil _) (fun hat hhat row n => ?_) _
    exact Yields.mono (fun r hr ss k h => Row.cons hr h) (gives_script hhat n)
  refine Yields.mono (fun r hr => ⟨hr.triggers, hr.whole ?_, hr.labels.trans ?_⟩) hrow
  · exact Nat.le_of_eq (List.length_map _)
  · refine ((perm_procedureIds t).append_right _).trans ?_
    rw [range_append hr.le]

/-! ## 3. Continuations -/

/-- Scripts that are whole can be cut. -/
theorem parts_eq {procedures : List Procedure} {ss : List Labelled}
    (h : ∀ s ∈ ss, Whole procedures s) :
    parts ss = .ok (ss.flatMap fun s => (labels s.body).map fun l => ⟨l, bodyAt s.body l⟩) := by
  have hcut : ∀ s ∈ ss, (Script.cut s.body).mapError (Error.internal ∘ .cut) =
      .ok ((labels s.body).map fun l => ⟨l, bodyAt s.body l⟩) := by
    intro s hs
    rw [Script.cut_eq_ok.mpr ⟨(h s hs).clear, (h s hs).nodup, rfl⟩]
    rfl
  unfold parts
  rw [Script.mapM_eq_ok hcut, List.flatMap_def]
  rfl

/-- Parts that carry each label once are put in the order of their labels. -/
theorem arrange_eq {count : Nat} {ps : List Continuation}
    (h : (ps.map (·.label)).Perm (List.range count)) :
    ∃ continuations : List Continuation, arrange count ps = .ok continuations ∧
      continuations.length = count ∧
      ∀ (l : Nat) (c : Continuation), continuations[l]? = some c → c ∈ ps ∧ c.label = l := by
  have hlt : ∀ p ∈ ps, p.label < count := fun p hp =>
    List.mem_range.mp (h.mem_iff.mp (List.mem_map.mpr ⟨p, hp, rfl⟩))
  have hnone : ps.find? (fun p => count ≤ p.label) = none := by
    refine List.find?_eq_none.mpr fun p hp => ?_
    rw [decide_eq_true_eq]
    exact Nat.not_le.mpr (hlt p hp)
  -- the part at each label
  have hfind (l : Nat) (hl : l < count) :
      ∃ p, ps.find? (fun p => p.label == l) = some p ∧ p ∈ ps ∧ p.label = l := by
    obtain ⟨p, hp, hpl⟩ := List.mem_map.mp (h.mem_iff.mpr (List.mem_range.mpr hl))
    have hsome : (ps.find? fun p => p.label == l).isSome = true := by
      rw [List.find?_isSome]
      exact ⟨p, hp, beq_iff_eq.mpr hpl⟩
    obtain ⟨q, hq⟩ := Option.isSome_iff_exists.mp hsome
    have hlabel := List.find?_some hq
    exact ⟨q, hq, List.mem_of_find?_eq_some hq, beq_iff_eq.mp hlabel⟩
  refine ⟨(List.range count).map fun l =>
    (ps.find? fun p => p.label == l).getD ⟨l, []⟩, ?_, ?_, fun l c hc => ?_⟩
  · unfold arrange
    rw [hnone]
    refine Script.mapM_eq_ok fun l hl => ?_
    obtain ⟨p, hp, -⟩ := hfind l (List.mem_range.mp hl)
    rw [hp]
    rfl
  · rw [List.length_map, List.length_range]
  · rw [List.getElem?_map] at hc
    obtain ⟨k, hk, rfl⟩ := Option.map_eq_some_iff.mp hc
    obtain ⟨hl, rfl⟩ := List.getElem?_eq_some_iff.mp hk
    rw [List.length_range] at hl
    rw [List.getElem_range]
    obtain ⟨p, hp, hmem, hlabel⟩ := hfind l hl
    rw [hp]
    exact ⟨hmem, hlabel⟩

/-! ## 4. Programs -/

/-- What a program has from the scripts of its target: one continuation for each label, which is
    what remains of the script at the label. -/
structure Assembled (t : TargetData) (ss : List Labelled) (p : Program) : Prop where
  scripts : Scripts t ss p.continuations.length
  procedures : p.procedures = procedures t
  index : p.index = Procedure.index p.procedures
  listeners : p.listeners = listeners ss
  continuation : ∀ (l : Nat) (c : Continuation), p.continuations[l]? = some c →
    c.label = l ∧ ∃ s ∈ ss, l ∈ labels s.body ∧ c.body = bodyAt s.body l

/-- **A target is compiled to a program that is put together from its scripts**, or its links lead
    back somewhere. -/
theorem yields_compile (t : TargetData) (stage : Option TargetData) :
    Yields (Excused t) (fun p => ∃ ss count,
      (scripts t stage).run (definitions t).length = .ok (ss, count) ∧ Assembled t ss p)
      (t.compile stage) := by
  have hscripts := gives_scripts t stage
  unfold Gives at hscripts
  unfold TargetData.compile
  dsimp only
  generalize hrun : scripts t stage (definitions t).length = r at hscripts
  rw [show (scripts t stage).run (definitions t).length = r from hrun]
  cases hscripts with
  | error he => exact .error he
  | @ok r h =>
    obtain ⟨ss, count⟩ := r
    have hparts := parts_eq h.whole
    have hlabels : ((ss.flatMap fun s => (labels s.body).map fun l =>
        (⟨l, bodyAt s.body l⟩ : Continuation)).map (·.label)).Perm (List.range count) := by
      rw [List.map_flatMap]
      simp only [List.map_map, Function.comp_def, List.map_id']
      exact h.labels
    obtain ⟨continuations, harrange, hlen, hcont⟩ := arrange_eq hlabels
    show Yields (Excused t) _ (parts ss >>= fun ps => arrange count ps >>= _)
    rw [hparts]
    show Yields (Excused t) _ (arrange count _ >>= _)
    rw [harrange]
    refine .ok ⟨ss, count, rfl, ⟨?_, rfl, rfl, rfl, fun l c hc => ?_⟩⟩
    · rw [← hlen] at h
      exact h
    · obtain ⟨hmem, hlabel⟩ := hcont l c hc
      obtain ⟨s, hs, hc'⟩ := List.mem_flatMap.mp hmem
      obtain ⟨k, hk, rfl⟩ := List.mem_map.mp hc'
      cases hlabel
      exact ⟨rfl, s, hs, hk, rfl⟩

theorem assembled_of_compile {t : TargetData} {stage : Option TargetData} {p : Program}
    (h : t.compile stage = .ok p) :
    ∃ ss count, (scripts t stage).run (definitions t).length = .ok (ss, count) ∧
      Assembled t ss p := by
  have hyields := yields_compile t stage
  rw [h] at hyields
  cases hyields with
  | ok hp => exact hp

end BlockScript.Compile
