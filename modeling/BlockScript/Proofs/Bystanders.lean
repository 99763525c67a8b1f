import BlockScript.Proofs.Visits

/-!
# Targets that a turn leaves alone

A thread at work changes the target that it belongs to, and the stage. All other targets stay as
they are, whatever the thread executes: clones may join them, and everything may stop, but nothing
else happens to them. A thread that deletes its target or stops everything leaves its turn at once,
so that no place of the table is given away and taken again in one turn.

* `Machine.Registered`: the table of targets is in order;
* `Machine.Spares`: what a thread does to targets while it goes on;
* `Machine.Ends`: what it has done to them when it leaves;
* `Machine.spares_of_change`, `Act.heeds_exec`, `Act.heeds_follow`: changes, statements and turns;
* `Machine.turn_spares_others`: a turn, and what it leaves alone.
-/

namespace BlockScript

/-! ## 1. Copies -/

/-- The target is a copy of a sprite: it is a clone, and has what a clone has from its sprite for
    good. -/
structure Target.Copied (source t : Target) : Prop where
  sprite : source.isStage = false
  isClone : t.isClone = true
  name : t.name = source.name
  program : t.program = source.program
  costumes : t.costumes = source.costumes
  sounds : t.sounds = source.sounds

namespace Target

variable {a b c : Target}

theorem Copied.trans (h : Copied a b) (h' : Copied b c) : Copied a c :=
  ⟨h.sprite, h'.isClone, h'.name.trans h.name, h'.program.trans h.program,
    h'.costumes.trans h.costumes, h'.sounds.trans h.sounds⟩

/-- A copy stays one. -/
theorem Copied.remains (h : Copied a b) (h' : Remains b c) : Copied a c :=
  ⟨h.sprite, h'.isClone.trans h.isClone, h'.name.trans h.name, h'.program.trans h.program,
    h'.costumes.trans h.costumes, h'.sounds.trans h.sounds⟩

/-- Whose copy it is was the same target before. -/
theorem Remains.copied (h : Remains a b) (h' : Copied b c) : Copied a c :=
  ⟨h.isStage.symm.trans h'.sprite, h'.isClone, h'.name.trans h.name, h'.program.trans h.program,
    h'.costumes.trans h.costumes, h'.sounds.trans h.sounds⟩

theorem copied_clone? {t clone : Target} {id : TargetId} (h : t.clone? id = some clone) :
    Copied t clone := by
  obtain ⟨s, hs, rfl⟩ := Option.map_eq_some_iff.mp h
  refine ⟨?_, rfl, rfl, rfl, rfl, rfl⟩
  unfold isStage
  rw [hs]
  rfl

end Target

/-! ## 2. The table of targets -/

namespace Machine

variable {H : Type}

/-- The table of targets is in order: each target has its place as its identity, and what is listed
    as a gap is one, listed once. -/
structure Registered (m : Machine H) : Prop where
  id : ∀ id t, m.target? id = some t → t.id = id
  gap : ∀ id ∈ m.free, m.target? id = none
  nodup : m.free.Nodup

/-- The table is in order in every state. -/
theorem Rostered.registered {originals : List Target} {m : Machine H} (h : m.Rostered originals) :
    m.Registered := by
  obtain ⟨clones, hroster⟩ := h
  exact ⟨hroster.id, fun id hid => ((hroster.mem_free id).mp hid).2, hroster.gaps⟩

theorem target?_of_targets {m m' : Machine H} (h : m'.targets = m.targets) (id : TargetId) :
    m'.target? id = m.target? id := by
  unfold target?
  rw [h]

theorem Registered.target?_nextId {m : Machine H} (h : m.Registered) :
    m.target? m.nextId = none := by
  unfold nextId
  cases hfree : m.free with
  | nil => exact target?_eq_none (Nat.le_refl _)
  | cons id rest => exact h.gap id (hfree ▸ List.mem_cons_self)

/-- **Cloning changes nothing, or one place of the table holds a copy then.** -/
theorem target?_createClone (m : Machine H) (of : TargetId) :
    (m.createClone of).2 = m ∨
      ∃ source clone, m.target? of = some source ∧ source.clone? m.nextId = some clone ∧
        (m.createClone of).2.free = m.free.tail ∧ (m.createClone of).2.stage = m.stage ∧
        ∀ id, (m.createClone of).2.target? id = m.target? id ∨
          id = m.nextId ∧ (m.createClone of).2.target? id = some clone := by
  unfold createClone
  split
  · exact .inl rfl
  dsimp only
  split
  · exact .inl rfl
  rename_i clone hclone
  obtain ⟨source, hsource, hcopy⟩ := Option.bind_eq_some_iff.mp hclone
  refine .inr ⟨source, clone, hsource, hcopy, ?_⟩
  rw [triggerFor_eq]
  refine ⟨rfl, rfl, fun id => ?_⟩
  unfold nextId target?
  dsimp only
  cases hfree : m.free with
  | nil =>
    rw [List.isEmpty_nil, if_pos rfl, List.headD_nil, List.getElem?_append]
    rcases Nat.lt_trichotomy id m.targets.length with hlt | heq | hgt
    · rw [if_pos hlt]
      exact .inl rfl
    · rw [if_neg (by omega), heq, Nat.sub_self]
      exact .inr ⟨rfl, rfl⟩
    · rw [if_neg (by omega), List.getElem?_eq_none (by simp; omega),
        List.getElem?_eq_none (Nat.le_of_lt hgt)]
      exact .inl rfl
  | cons next rest =>
    rw [List.isEmpty_cons, if_neg Bool.false_ne_true, List.headD_cons]
    by_cases heq : next = id
    · subst heq
      rcases Nat.lt_or_ge next m.targets.length with hlt | hge
      · rw [List.getElem?_set_self hlt]
        exact .inr ⟨rfl, rfl⟩
      · rw [List.set_eq_of_length_le hge]
        exact .inl rfl
    · rw [List.getElem?_set_ne heq]
      exact .inl rfl

/-! ## 3. What a thread does to targets -/

/-- Somebody lives of whom the target is a copy. -/
def Bears (m : Machine H) (t : Target) : Prop :=
  ∃ id source, m.target? id = some source ∧ source.Copied t

/-- What a thread of a target does to the targets while it goes on: its own target and the stage
    remain, whatever they look like, all others are as they were, and who is new is a clone. -/
structure Spares (own : TargetId) (m m' : Machine H) : Prop where
  registered : m'.Registered
  stage : m'.stage = m.stage
  others : ∀ id t, id ≠ own → id ≠ m.stage → m.target? id = some t → m'.target? id = some t
  remains : ∀ id t, m.target? id = some t → ∃ t', m'.target? id = some t' ∧ Target.Remains t t'
  fresh : ∀ id t, m.target? id = none → m'.target? id = some t → m.Bears t

variable {own : TargetId} {a b c m m' : Machine H}

/-- Whoever lives now is one who lived then, or a copy. -/
theorem Spares.bears (h : Spares own a b) {t : Target} (ht : b.Bears t) : a.Bears t := by
  obtain ⟨of, source, hsource, hcopied⟩ := ht
  cases hof : a.target? of with
  | none =>
    obtain ⟨of', source', hsource', hcopied'⟩ := h.fresh of source hof hsource
    exact ⟨of', source', hsource', hcopied'.trans hcopied⟩
  | some source' =>
    obtain ⟨_, hlives, hremains⟩ := h.remains of source' hof
    cases hlives.symm.trans hsource
    exact ⟨of, source', hof, hremains.copied hcopied⟩

theorem Spares.trans (h : Spares own a b) (h' : Spares own b c) : Spares own a c := by
  refine ⟨h'.registered, h'.stage.trans h.stage, fun id t hown hstage ht => ?_, fun id t ht => ?_,
    fun id t hnone ht => ?_⟩
  · exact h'.others id t hown (h.stage ▸ hstage) (h.others id t hown hstage ht)
  · obtain ⟨t₁, ht₁, hremains⟩ := h.remains id t ht
    obtain ⟨t₂, ht₂, hremains'⟩ := h'.remains id t₁ ht₁
    exact ⟨t₂, ht₂, hremains.trans hremains'⟩
  · cases hb : b.target? id with
    | none => exact h.bears (h'.fresh id t hb ht)
    | some t₁ =>
      obtain ⟨of, source, hsource, hcopied⟩ := h.fresh id t₁ hnone hb
      obtain ⟨_, hlives, hremains⟩ := h'.remains id t₁ hb
      cases hlives.symm.trans ht
      exact ⟨of, source, hsource, hcopied.remains hremains⟩

/-- Nothing happens to the table. -/
theorem spares_of_targets (hm : m.Registered) (htargets : m'.targets = m.targets)
    (hfree : m'.free = m.free) (hstage : m'.stage = m.stage) : Spares own m m' := by
  have htarget := target?_of_targets htargets
  refine ⟨⟨fun id t ht => hm.id id t (htarget id ▸ ht), fun id hid => ?_, hfree ▸ hm.nodup⟩, hstage,
    fun id t _ _ ht => (htarget id).trans ht, fun id t ht => ⟨t, (htarget id).trans ht, .refl t⟩,
    fun id t hnone ht => ?_⟩
  · rw [htarget]
    exact hm.gap id (hfree ▸ hid)
  · rw [htarget, hnone] at ht
    cases ht

/-- A thread changes its own target, or the stage. -/
theorem spares_mapTarget (hm : m.Registered) {id : TargetId} {t : Target} {f : Target → Target}
    (hid : id = own ∨ id = m.stage) (ht : m.target? id = some t) (hf : Target.Remains t (f t)) :
    Spares own m (m.mapTarget t.id f) := by
  have hself := hm.id id t ht
  subst hself
  have hback {j : TargetId} {t' : Target} (h : (m.mapTarget t.id f).target? j = some t') :
      ∃ t₀, m.target? j = some t₀ ∧ Target.Remains t₀ t' := by
    rw [target?_mapTarget] at h
    split at h
    · rename_i heq
      subst heq
      rw [ht] at h
      cases h
      exact ⟨t, ht, hf⟩
    · exact ⟨t', h, .refl t'⟩
  refine ⟨⟨fun j t' h => ?_, fun j hj => ?_, hm.nodup⟩, rfl, fun j t' hown hstage h => ?_,
    fun j t' h => ?_, fun j t' hnone h => ?_⟩
  · obtain ⟨t₀, ht₀, hremains⟩ := hback h
    exact hremains.id.trans (hm.id j t₀ ht₀)
  · rw [target?_mapTarget, hm.gap j hj]
    split <;> rfl
  · have hne : t.id ≠ j := by
      rintro rfl
      exact hid.elim hown hstage
    rw [target?_mapTarget, if_neg hne]
    exact h
  · rw [target?_mapTarget]
    split
    · rename_i heq
      subst heq
      cases ht.symm.trans h
      exact ⟨f t, by rw [ht]; rfl, hf⟩
    · exact ⟨t', h, .refl t'⟩
  · obtain ⟨t₀, ht₀, -⟩ := hback h
    rw [hnone] at ht₀
    cases ht₀

/-- A clone takes a place that is nobody's. -/
theorem spares_createClone (hm : m.Registered) (of : TargetId) :
    Spares own m (m.createClone of).2 := by
  rcases m.target?_createClone of with heq | ⟨source, clone, hsource, hclone, hfree, hstage, htarget⟩
  · rw [heq]
    exact spares_of_targets hm rfl rfl rfl
  have hnext := hm.target?_nextId
  have hkept {id : TargetId} {t : Target} (ht : m.target? id = some t) :
      (m.createClone of).2.target? id = some t := by
    rcases htarget id with heq | ⟨rfl, -⟩
    · rw [heq, ht]
    · rw [hnext] at ht
      cases ht
  refine ⟨⟨fun id t ht => ?_, fun id hid => ?_, ?_⟩, hstage, fun id t _ _ ht => hkept ht,
    fun id t ht => ⟨t, hkept ht, .refl t⟩, fun id t hnone ht => ?_⟩
  · rcases htarget id with heq | ⟨rfl, heq⟩ <;> rw [heq] at ht
    · exact hm.id id t ht
    · cases ht
      exact (isClone_clone? hclone).1
  · rw [hfree] at hid
    have hne : id ≠ m.nextId := by
      rintro rfl
      have hnodup := hm.nodup
      unfold nextId at hid
      cases hlist : m.free with
      | nil =>
        rw [hlist] at hid
        cases hid
      | cons next rest =>
        rw [hlist] at hid hnodup
        exact (List.nodup_cons.mp hnodup).1 hid
    rcases htarget id with heq | ⟨heq, -⟩
    · rw [heq]
      exact hm.gap id (List.mem_of_mem_tail hid)
    · exact absurd heq hne
  · rw [hfree]
    exact hm.nodup.tail
  · rcases htarget id with heq | ⟨rfl, heq⟩ <;> rw [heq] at ht
    · rw [hnone] at ht
      cases ht
    · cases ht
      exact ⟨of, source, hsource, Target.copied_clone? hclone⟩

end Machine

/-- Whether a target may be removed by the statement. -/
def Stmt.removes : Stmt → Bool
  | .deleteClone | .stopAll => true
  | _ => false

namespace Machine

variable {H : Type} [Host H] {own : TargetId} {seat : Nat} {s : Stmt} {m m' : Machine H}

/-- **Each change spares the targets of others**, if it removes none. -/
theorem spares_of_change (hm : m.Registered) (hs : s.removes = false)
    (h : Change own seat s m m') : Spares own m m' := by
  cases h with
  | aside h => exact spares_of_targets hm h.targets h.free h.stage
  | modify m hid ht hf => exact spares_mapTarget hm hid ht hf
  | trigger _ m e =>
    rw [trigger_eq]
    exact spares_of_targets hm rfl rfl rfl
  | createClone m of => exact spares_createClone hm of
  | stopOthers => exact spares_of_targets hm rfl rfl rfl
  | deleteClone | stopAll => cases hs

theorem spares_of_alters (hm : m.Registered) (hs : s.removes = false)
    (h : Alters own seat s m m') : Spares own m m' := by
  induction h with
  | refl => exact spares_of_targets hm rfl rfl rfl
  | tail _ hchange ih => exact ih.trans (spares_of_change ih.registered hs hchange)

/-- What a thread of a target has done when it leaves its turn. To delete its own target or to stop
    everything is the last that it does. -/
inductive Ends (own : TargetId) (m m' : Machine H) : Prop
  | spared (h : Spares own m m')
  | deleted {m₁ : Machine H} (h : Spares own m m₁) (hdone : (m₁.deleteClone own).1 = true)
      (heq : m' = (m₁.deleteClone own).2)
  | stopped {m₁ : Machine H} (h : Spares own m m₁) (heq : m' = m₁.stopAll)

theorem Spares.ends {a b c : Machine H} (h : Spares own a b) (h' : Ends own b c) :
    Ends own a c := by
  cases h' with
  | spared h' => exact .spared (h.trans h')
  | deleted h' hdone heq => exact .deleted (h.trans h') hdone heq
  | stopped h' heq => exact .stopped (h.trans h') heq

end Machine

/-! ## 4. Turns -/

namespace Act

variable {H : Type} [Host H]

/-- What a thread does to targets on the way from one turn to another; it may have removed some if
    it leaves because its seat is lost. -/
structure Minds (lost : Prop) (t t' : Turn H) : Prop where
  target : t'.thread.target = t.thread.target
  ends : Machine.Ends t.thread.target t.machine t'.machine
  spares : ¬ lost → Machine.Spares t.thread.target t.machine t'.machine

/-- What holds after an act that may end in a fault. -/
def Heeds {α : Type} (lost : α → Prop) (t : Turn H) : EStateM.Result Fault (Turn H) α → Prop
  | .ok a t' => Minds (lost a) t t'
  | .error _ t' => Minds False t t'

variable {lost lost' : Prop} {a b c t t' : Turn H}

theorem minds_of_spares (htarget : t'.thread.target = t.thread.target)
    (h : Machine.Spares t.thread.target t.machine t'.machine) : Minds lost t t' :=
  ⟨htarget, .spared h, fun _ => h⟩

theorem Minds.refl (hm : t.machine.Registered) : Minds lost t t :=
  minds_of_spares rfl (Machine.spares_of_targets hm rfl rfl rfl)

theorem Minds.trans (h : Minds lost a b) (hlost : ¬ lost) (h' : Minds lost' b c) :
    Minds lost' a c := by
  have hfirst := h.spares hlost
  refine ⟨h'.target.trans h.target, hfirst.ends ?_, fun hne => hfirst.trans ?_⟩
  · rw [← h.target]
    exact h'.ends
  · rw [← h.target]
    exact h'.spares hne

theorem Minds.heeds {α : Type} {l : α → Prop} {r : EStateM.Result Fault (Turn H) α}
    (h : Minds lost a b) (hlost : ¬ lost) (h' : Heeds l b r) : Heeds l a r := by
  cases r with
  | ok => exact h.trans hlost h'
  | error => exact h.trans hlost h'

theorem exec_stopAll_apply (t : Turn H) :
    exec .stopAll t = .ok (.leave .detached) { t with machine := t.machine.stopAll } := by
  simp only [exec, bind_apply, modifyMachine_apply, ifSeated_apply, Machine.isRunning_stopAll]
  rfl

/-- **What a statement does to targets.** -/
theorem heeds_exec (s : Stmt) (hm : t.machine.Registered) :
    Heeds (· = .leave .detached) t (exec s t) := by
  have hrefl : Machine.Spares t.thread.target t.machine t.machine :=
    Machine.spares_of_targets hm rfl rfl rfl
  cases hs : s.removes with
  | false =>
    have hafter {t' : Turn H} (h : Alters s t t') (lost : Prop) : Minds lost t t' :=
      minds_of_spares h.thread.target (Machine.spares_of_alters hm hs h.machine)
    cases h : exec s t with
    | ok c t' => exact hafter ((exec_alters s).of_ok h) _
    | error e t' => exact hafter ((exec_alters s).of_error h) _
  | true =>
    -- Only these two remove targets; after either the thread has no seat to go back to, unless
    -- there was nothing to delete.
    cases s with
    | deleteClone =>
      rw [exec_deleteClone_apply]
      cases hdone : (t.machine.deleteClone t.thread.target).1 with
      | true =>
        rw [if_pos rfl]
        exact ⟨rfl, .deleted hrefl hdone rfl, fun hne => absurd rfl hne⟩
      | false =>
        rw [Machine.deleteClone_false hdone]
        exact minds_of_spares rfl hrefl
    | stopAll =>
      rw [exec_stopAll_apply]
      exact ⟨rfl, .stopped hrefl rfl, fun hne => absurd rfl hne⟩
    | _ => cases hs

/-- **What statements do to targets**, one after the other. -/
theorem heeds_block (steps : Nat) (code : List Stmt) (hm : t.machine.Registered) :
    Heeds (· = some .detached) t (block steps code t) := by
  induction steps generalizing code t with
  | zero => exact Minds.refl hm
  | succ steps ih =>
    cases code with
    | nil => exact Minds.refl hm
    | cons s rest =>
      have hfirst := heeds_exec s hm
      rw [block, bind_apply]
      cases hexec : exec s t with
      | error e t₁ =>
        rw [hexec] at hfirst
        exact hfirst
      | ok c t₁ =>
        rw [hexec] at hfirst
        cases c with
        | onward first =>
          have hlost : Control.onward first ≠ .leave .detached := by
            intro h
            cases h
          exact hfirst.heeds hlost (ih _ (hfirst.spares hlost).registered)
        | leave e =>
          refine ⟨hfirst.target, hfirst.ends, fun hne => hfirst.spares fun heq => hne ?_⟩
          cases heq
          rfl

/-- To look up statements changes nothing, also where there are none. -/
theorem heeds_codeAt {α : Type} {lost : α → Prop} {f : List Stmt → Act H α} {l : Label}
    (hm : t.machine.Registered) (h : ∀ code, Heeds lost t (f code t)) :
    Heeds lost t ((codeAt l >>= f) t) := by
  rw [bind_apply]
  simp only [codeAt, bind_apply, get_apply]
  cases t.program.continuation? l with
  | none => exact Minds.refl hm
  | some c => exact h c.body

/-- **What a turn does to targets**, over all labels to which it comes. -/
theorem heeds_follow (steps : Nat) (code : List Stmt) (hm : t.machine.Registered) :
    Heeds (· = .detached) t (follow steps code t) := by
  induction steps generalizing code t with
  | zero => exact Minds.refl hm
  | succ steps ih =>
    have hfirst := heeds_block (steps + 1) code hm
    rw [follow, bind_apply]
    cases hblock : block (steps + 1) code t with
    | error e t₁ =>
      rw [hblock] at hfirst
      exact hfirst
    | ok e t₁ =>
      rw [hblock] at hfirst
      by_cases hlost : e = some .detached
      · subst hlost
        exact ⟨hfirst.target, hfirst.ends, fun hne => absurd rfl hne⟩
      have hm₁ := (hfirst.spares hlost).registered
      refine hfirst.heeds hlost ?_
      cases e with
      | none => exact Minds.refl hm₁
      | some e =>
        cases e with
        | stop => exact Minds.refl hm₁
        | detached => exact absurd rfl hlost
        | yield l => exact minds_of_spares rfl (Machine.spares_of_targets hm₁ rfl rfl rfl)
        | jump l => exact heeds_codeAt hm₁ fun code => ih code hm₁

theorem heeds_resume (steps : Nat) (hm : t.machine.Registered) :
    Heeds (· = .detached) t (resume steps t) :=
  heeds_codeAt hm fun code => heeds_follow steps code hm

end Act

namespace Machine

variable {H : Type} [Host H] {own : TargetId} {m m' : Machine H}

/-- All is as it is after everything stopped: no clone lives, and no thread waits. -/
structure Cleared (m : Machine H) : Prop where
  noClone : ∀ id t, m.target? id = some t → t.isClone = false
  idle : m.isIdle = true

/-- What a turn of a thread has done to targets, `own` being the one that the thread belongs to.
    Others are as they were, but for clones that are gone because everything stopped; whoever is
    gone was a clone; whoever is new is a clone of one who lived before. -/
structure Spared (own : TargetId) (m m' : Machine H) : Prop where
  others : ∀ id t, id ≠ own → id ≠ m.stage → m.target? id = some t →
    m'.target? id = some t ∨ m'.target? id = none ∧ t.isClone = true ∧ m'.Cleared
  remains : ∀ id t, m.target? id = some t →
    (∃ t', m'.target? id = some t' ∧ Target.Remains t t') ∨
      m'.target? id = none ∧ t.isClone = true ∧ (id = own ∨ m'.Cleared)
  fresh : ∀ id t, m.target? id = none → m'.target? id = some t → t.id = id ∧ m.Bears t

omit [Host H] in
/-- All that has happened to targets has happened to the table. -/
theorem Spared.of_targets {m₁ m₂ : Machine H} (h : Spared own m m₁)
    (htargets : m₂.targets = m₁.targets) (hcleared : m₁.Cleared → m₂.Cleared) :
    Spared own m m₂ := by
  have htarget := target?_of_targets htargets
  refine ⟨fun id t hown hstage ht => ?_, fun id t ht => ?_, fun id t hnone ht => ?_⟩
  · rw [htarget]
    exact (h.others id t hown hstage ht).imp_right fun hgone =>
      ⟨hgone.1, hgone.2.1, hcleared hgone.2.2⟩
  · rw [htarget]
    exact (h.remains id t ht).imp_right fun hgone =>
      ⟨hgone.1, hgone.2.1, hgone.2.2.imp_right hcleared⟩
  · exact h.fresh id t hnone (htarget id ▸ ht)

theorem cleared_stopAll (m : Machine H) : m.stopAll.Cleared := by
  refine ⟨fun id t ht => ?_, ?_⟩
  · rw [target?_stopAll] at ht
    simpa using (Option.filter_eq_some_iff.mp ht).2
  · unfold isIdle stopAll
    split <;> simp

omit [Host H] in
theorem Cleared.settle (h : m.Cleared) (i : Nat) (s : Seat) : (m.settle i s).Cleared := by
  have hrunning : m.isRunning i = false := by
    refine Bool.eq_false_iff.mpr fun hrunning => ?_
    obtain ⟨hlt, hseat⟩ := List.getElem?_eq_some_iff.mp (isRunning_iff.mp hrunning)
    have hempty := List.all_eq_true.mp h.idle _ (List.getElem_mem hlt)
    rw [hseat] at hempty
    cases hempty
  refine ⟨h.noClone, ?_⟩
  unfold Machine.settle
  rw [hrunning, if_neg Bool.false_ne_true]
  exact h.idle

/-- **Whatever a thread has done when it leaves, it has spared the targets of others.** -/
theorem spared_of_ends (h : Ends own m m') : Spared own m m' := by
  cases h with
  | spared h =>
    exact ⟨fun id t hown hstage ht => .inl (h.others id t hown hstage ht),
      fun id t ht => .inl (h.remains id t ht),
      fun id t hnone ht => ⟨h.registered.id id t ht, h.fresh id t hnone ht⟩⟩
  | @deleted m₁ h hdone heq =>
    rcases m₁.deleteClone_cases own with hno | ⟨x, hx, hclone, hyes⟩
    · rw [hno] at hdone
      cases hdone
    have htarget (id : TargetId) : m'.target? id = if id = own then none else m₁.target? id := by
      rw [heq, hyes]
      exact target?_of_set_none rfl id
    refine ⟨fun id t hown hstage ht => .inl ?_, fun id t ht => ?_, fun id t hnone ht => ?_⟩
    · rw [htarget, if_neg hown]
      exact h.others id t hown hstage ht
    · obtain ⟨t₁, ht₁, hremains⟩ := h.remains id t ht
      rw [htarget]
      split
      · rename_i hown
        rw [hown, hx] at ht₁
        cases ht₁
        exact .inr ⟨rfl, hremains.isClone.symm.trans hclone, .inl hown⟩
      · exact .inl ⟨t₁, ht₁, hremains⟩
    · rw [htarget] at ht
      split at ht
      · cases ht
      · exact ⟨h.registered.id id t ht, h.fresh id t hnone ht⟩
  | @stopped m₁ h heq =>
    -- Clones that the thread has made in this turn are gone as well, so nobody is new.
    have hcleared : m'.Cleared := heq ▸ cleared_stopAll m₁
    have htarget (id : TargetId) :
        m'.target? id = (m₁.target? id).filter fun t => !t.isClone := by
      rw [heq, target?_stopAll]
    have hstays {id : TargetId} {t : Target} (ht : m₁.target? id = some t) :
        m'.target? id = some t ∨ m'.target? id = none ∧ t.isClone = true := by
      rw [htarget, ht]
      cases hclone : t.isClone <;> simp [hclone]
    refine ⟨fun id t hown hstage ht => ?_, fun id t ht => ?_, fun id t hnone ht => ?_⟩
    · exact (hstays (h.others id t hown hstage ht)).imp_right fun hgone =>
        ⟨hgone.1, hgone.2, hcleared⟩
    · obtain ⟨t₁, ht₁, hremains⟩ := h.remains id t ht
      rcases hstays ht₁ with hlives | ⟨hgone, hclone⟩
      · exact .inl ⟨t₁, hlives, hremains⟩
      · exact .inr ⟨hgone, hremains.isClone.symm.trans hclone, .inr hcleared⟩
    · rw [htarget] at ht
      have ht₁ := (Option.filter_eq_some_iff.mp ht).1
      exact ⟨h.registered.id id t ht₁, h.fresh id t hnone ht₁⟩

/-- The turn of a seat, whether it ends in a fault or not. -/
theorem spared_visit {steps i : Nat} {t : Thread} (hm : m.Registered) (hready : m.ready? i = some t)
    (h : visit steps i m = .ok () m' ∨ ∃ e, visit steps i m = .error e m') :
    Spared t.target m m' := by
  have hlent : Spares t.target m (m.lend i t) := spares_of_targets hm rfl rfl rfl
  have hsettle {m₁ : Machine H} (hends : Ends t.target (m.lend i t) m₁) (s : Seat) :
      Spared t.target m (m₁.settle i s) :=
    (spared_of_ends (hlent.ends hends)).of_targets rfl fun hcleared => hcleared.settle i s
  rw [visit_apply, hready] at h
  dsimp only at h
  unfold takeTurn at h
  cases htarget : (m.lend i t).target? t.target with
  | none =>
    rw [htarget] at h
    rcases h with h | ⟨e, h⟩ <;> cases h
    exact hsettle (.spared (spares_of_targets hlent.registered rfl rfl rfl)) .empty
  | some target =>
    rw [htarget] at h
    dsimp only at h
    have hturn := Act.heeds_resume steps
      (t := ⟨m.lend i t, t, i, target.program⟩) hlent.registered
    cases hresume : Act.resume steps ⟨m.lend i t, t, i, target.program⟩ with
    | ok outcome turn =>
      rw [hresume] at h hturn
      rcases h with h | ⟨e, h⟩ <;> cases h
      exact hsettle hturn.ends _
    | error e turn =>
      rw [hresume] at h hturn
      rcases h with h | ⟨e, h⟩ <;> cases h
      exact hsettle hturn.ends .empty

/-- **Sprites cannot disturb each other.** Whatever the programs are, a turn of a thread leaves
    every target but its own and the stage as it was, in everything, but for clones that are gone
    because everything stopped. Its own target, or whoever else is gone, was a clone, and whoever is
    new is a clone of one who lived before. This holds where the table of targets is in order, and
    it is in every state, also after a fault and in the middle of a turn. To evaluate an expression
    changes no target at all. -/
theorem turn_spares_others :
    (∀ (m m' : Machine H) (steps i : Nat) (t : Thread), m.Registered → m.ready? i = some t →
      (visit steps i m = .ok () m' ∨ ∃ e, visit steps i m = .error e m') → Spared t.target m m') ∧
    (∀ (p : Project) (programs : List Program) (o : Options) (host : H) (s : Surroundings)
      (m : Machine H) (w : World H), Machine.load p programs o host s = .ok m →
      World.Arises m w → w.machine.Registered) ∧
    ∀ (e : Expr) (t : Turn H), ((Act.eval e).after t).machine.targets = t.machine.targets := by
  refine ⟨fun m m' steps i t hm hready h => spared_visit hm hready h,
    fun p programs o host s m w hload hw => ?_, fun e t => ?_⟩
  · obtain ⟨originals, -, hstart, -⟩ := roster_load hload
    exact (Rostered.recasts ⟨[], hstart⟩ (hw.recasts ⟨[], hstart⟩)).registered
  · exact ((Act.made_eval e.frees_true).aside t).targets

end Machine

/-- A script that clones its sprite, hides it and waits. -/
def veiling : Program where
  continuations := [⟨0, [.createClone (.const (.text "_myself_")), .looks .hide, .forceQueue 0]⟩]
  listeners := [(.flag, [0])]

/-- The machine of the script when it is to begin, with a clone that is there already. -/
def veiling? : Option (Machine Headless) :=
  (Machine.load echoingProject [{}, veiling] {} {} .still).toOption.bind
    (Request.outcome? [.greenFlag, .createClone 1])

/-- The clone that is there stays as it is, and another one joins. -/
theorem Machine.veiling_turn :
    ∃ m m' : Machine Headless, ∃ t,
      m.Registered ∧ m.ready? 0 = some t ∧ t.target = 1 ∧
      (visit 9 0 m = .ok () m' ∨ ∃ e, visit 9 0 m = .error e m') ∧
      (∃ x, m.target? 2 = some x ∧ m'.target? 2 = some x) ∧
      ∃ y, m.target? 3 = none ∧ m'.target? 3 = some y ∧ m.Bears y := by
  have hrun : veiling?.map (fun m => (m.stage, (m.ready? 0).map (·.target), (m.target? 2).isSome,
      (m.target? 3).isSome, ((World.afterVisit 0 [] (visit 9 0 m)).machine.target? 3).isSome)) =
      some (0, some 1, true, false, true) := by
    decide +kernel
  obtain ⟨m, hm, hrun⟩ := Option.map_eq_some_iff.mp hrun
  simp only [Prod.mk.injEq, Option.isSome_iff_exists, Option.isSome_eq_false_iff,
    Option.isNone_iff_eq_none] at hrun
  obtain ⟨hstage, hready, ⟨x, hx⟩, hnone, y, hy⟩ := hrun
  obtain ⟨t, hready, htarget⟩ := Option.map_eq_some_iff.mp hready
  obtain ⟨m₀, hload, houtcome⟩ := Option.bind_eq_some_iff.mp hm
  have hvisit : ∃ m', (World.afterVisit 0 [] (visit 9 0 m)).machine = m' ∧
      (visit 9 0 m = .ok () m' ∨ ∃ e, visit 9 0 m = .error e m') := by
    cases visit 9 0 m with
    | ok _ m' => exact ⟨m', rfl, .inl rfl⟩
    | error e m' => exact ⟨m', rfl, .inr ⟨e, rfl⟩⟩
  obtain ⟨m', hafter, hvisit⟩ := hvisit
  rw [hafter] at hy
  have hloaded := eq_ok_of_toOption hload
  obtain ⟨hturns, hregistered, -⟩ := turn_spares_others (H := Headless)
  have hm := hregistered _ _ _ _ _ _ _ hloaded (World.reaches_outcome? houtcome)
  have hspared := hturns m m' 9 0 t hm hready hvisit
  obtain ⟨-, hbears⟩ := hspared.fresh 3 y hnone hy
  refine ⟨m, m', t, hm, hready, htarget, hvisit, ⟨x, hx, ?_⟩, y, hnone, hy, hbears⟩
  have hown : 2 ≠ t.target := by
    rw [htarget]
    decide
  have hnot : 2 ≠ m.stage := by
    rw [hstage]
    decide
  rcases hspared.others 2 x hown hnot hx with hsame | ⟨-, -, hcleared⟩
  · exact hsame
  · obtain ⟨_, _, -, hcopied⟩ := hbears
    cases hcopied.isClone.symm.trans (hcleared.noClone 3 y hy)

end BlockScript
