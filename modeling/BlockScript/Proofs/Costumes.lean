import BlockScript.Proofs.Descent
import BlockScript.Proofs.Sums

/-!
# The costume that shows is one that there is

A costume is chosen by a number that wraps around, by name, by a word for backdrops, by the spelling
of a number, or by chance. However it is chosen, its position is below the number of costumes, and
the words for backdrops do what they say.

* `Asset.byNumber?_lt`, `Asset.byNumber?_succ`: numbers wrap around, and count from one;
* `Target.CostumeChoice.Within`: a choice that leads to a costume that there is;
* `Target.Dressed`: a target whose costumes were changed in any way, and its clones;
* `Target.costume_valid`: the costume that shows is always one that there is.
-/

namespace BlockScript

/-! ## 1. Numbers of assets -/

namespace Asset

open Number (Whole)

theorem whole_one : Whole 1.0 1 := by
  have heq : 1.0 = Number.ofNat 1 := by decide +kernel
  rw [heq]
  exact Number.whole_ofNat (by decide)

section Number

variable {count : Nat} (hpos : 0 < count) (hlt : count < 2 ^ 53)

include hpos hlt

/-- A whole number that is not infinite is taken as a position, counted from one. -/
theorem trunc?_remUp {x : Float} {k : Int} (h : Whole x k) :
    (Number.trunc? (Number.remUp x (Number.ofNat count))).map Int.toNat =
      some (k % count).toNat := by
  rw [(h.remUp hpos hlt.le).trunc?]
  rfl

/-- **A number wraps around**: the position that it names is below the number of assets. -/
theorem byNumber?_lt {n : Float} {i : Nat} (h : byNumber? count n = some i) : i < count := by
  have hmod (k : Int) : (k % count).toNat < count := by
    have hlow := Int.emod_nonneg k (Int.natCast_ne_zero.mpr hpos.ne')
    have hhigh := Int.emod_lt_of_pos k (Int.natCast_pos.mpr hpos)
    omega
  unfold byNumber? at h
  split at h
  · cases h
  rename_i hfinite
  simp only [Bool.or_eq_true, not_or, Bool.not_eq_true', Bool.not_eq_false] at hfinite
  obtain ⟨negative, units, hview⟩ := Number.exists_view_of_isFinite hfinite.2
  obtain ⟨k, hround⟩ := Number.whole_round hview
  dsimp only at h
  rcases hround.sub_cases whole_one with ⟨j, hj⟩ | ⟨negative, hinfinite⟩
  · rw [trunc?_remUp hpos hlt hj] at h
    exact Option.some.inj h ▸ hmod j
  · -- what is infinite has no remainder
    have hrem : Number.rem (Number.round n - 1.0) (Number.ofNat count) = 0.0 / 0.0 := by
      unfold Number.rem
      rw [hinfinite, Number.view_ofNat_le hlt.le]
    have hnone : Number.trunc? (0.0 / 0.0) = none := by decide +kernel
    unfold Number.remUp at h
    dsimp only at h
    rw [hrem, if_neg (by decide +kernel), hnone] at h
    cases h

/-- **Assets are counted from one.** -/
theorem byNumber?_succ {i : Nat} (hi : i < count) :
    byNumber? count (Number.ofNat (i + 1)) = some i := by
  have hwhole : Whole (Number.ofNat (i + 1)) (i + 1 : Nat) := Number.whole_ofNat (by omega)
  have hbefore := hwhole.sub whole_one (by omega)
  rw [show ((i + 1 : Nat) : Int) - 1 = i by omega] at hbefore
  have hmod : ((i : Int) % count).toNat = i := by
    rw [Int.emod_eq_of_lt (by omega) (by omega), Int.toNat_natCast]
  unfold byNumber?
  rw [if_neg (by simp [hpos.ne', Number.isFinite_ofNat (show i + 1 < 2 ^ 53 by omega)])]
  dsimp only
  rw [hwhole.round, trunc?_remUp hpos hlt hbefore, hmod]

end Number

/-! Whatever a value means, it is one of the assets. -/

section Find

variable {names : List String}

theorem lt_of_byName? {name : String} {i : Nat} (h : byName? names name = some i) :
    i < names.length :=
  (List.findIdx?_eq_some_iff_findIdx_eq.mp h).1

theorem lt_of_bySpelling? {count : Nat} (hpos : 0 < count) (hlt : count < 2 ^ 53) {text : String}
    {i : Nat} (h : bySpelling? count text = some i) : i < count := by
  unfold bySpelling? at h
  dsimp only at h
  split at h
  · cases h
  · exact byNumber?_lt hpos hlt h

end Find

end Asset

namespace Target

/-! ## 2. Choices -/

/-- A choice leads to one of so many costumes: to the one that shows, to another one, or to any of
    the others. -/
inductive CostumeChoice.Within (count : Nat) : CostumeChoice → Prop
  | stay : Within count .stay
  | wear {i : Nat} (h : i < count) : Within count (.wear i)
  | another (h : 1 < count) : Within count (.another (count - 1))

theorem within_backdropWord? {t : Target} (hpos : 0 < t.costumes.length) {text : String}
    {choice : CostumeChoice} (h : t.backdropWord? text = some choice) :
    choice.Within t.costumes.length := by
  unfold backdropWord? at h
  dsimp only at h
  split at h
  · cases h
  split at h
  · cases h
    exact .wear (Nat.mod_lt _ hpos)
  split at h
  · cases h
    exact .wear (Nat.mod_lt _ hpos)
  split at h
  · cases h
    split
    · exact .another ‹_›
    · exact .stay
  · cases h

/-- **What a value means as a costume is one that there is.** -/
theorem within_costumeFor {t : Target} (hlt : t.costumes.length < 2 ^ 53) (v : Value) :
    (t.costumeFor v).Within t.costumes.length := by
  have hposition (position : Option Nat) (h : ∀ i, position = some i → i < t.costumes.length) :
      (position.elim CostumeChoice.stay .wear).Within t.costumes.length := by
    cases position with
    | none => exact .stay
    | some i => exact .wear (h i rfl)
  unfold costumeFor
  dsimp only
  split
  · exact .stay
  rename_i hne
  have hpos : 0 < t.costumes.length := Nat.pos_of_ne_zero hne
  split
  · exact hposition _ fun i h => Asset.byNumber?_lt hpos hlt h
  · split
    · exact .wear (Asset.lt_of_byName? ‹_›)
    · exact within_backdropWord? hpos ‹_›
    · exact hposition _ fun i h => Asset.lt_of_bySpelling? hpos hlt h

/-- The position that is chosen, where chance picks one of the others. -/
theorem CostumeChoice.Within.position_lt {count current pick : Nat} {choice : CostumeChoice}
    (h : choice.Within count) (hcurrent : current < count)
    (hpick : ∀ others, choice = .another others → pick < others) :
    choice.position current pick < count := by
  cases h with
  | stay => exact hcurrent
  | wear h => exact h
  | another h =>
    have hlt := hpick _ rfl
    show (if current ≤ pick then pick + 1 else pick) < count
    split <;> omega

/-- What chance may pick, where the value leaves the costume to it. -/
def Allows (t : Target) (v : Value) (pick : Nat) : Prop :=
  ∀ others, t.costumeFor v = .another others → pick < others

/-- Where there are no costumes, none is put on. -/
theorem dress_of_empty {t : Target} (h : t.costumes = []) (v : Value) (pick : Nat) :
    t.dress v pick = t := by
  have hstay : t.costumeFor v = .stay := by
    unfold costumeFor
    dsimp only
    rw [h]
    rfl
  unfold dress
  rw [hstay]
  rfl

/-! ## 3. Backdrops -/

/-- The words for backdrops that are not names. -/
def backdropWords : List String := ["next backdrop", "previous backdrop", "random backdrop"]

/-- A stage where no backdrop bears one of the words as its name. -/
structure Worded (t : Target) : Prop where
  isStage : t.isStage = true
  unnamed : ∀ word ∈ backdropWords, word ∉ t.costumes

section Words

variable {t : Target}

/-- Where a word is no name, it has its own meaning. -/
theorem costumeFor_word (hpos : 0 < t.costumes.length) {word : String} (hword : word ∉ t.costumes)
    {choice : CostumeChoice} (h : t.backdropWord? word = some choice) :
    t.costumeFor (.text word) = choice := by
  have hname : Asset.byName? t.costumes word = none := by
    refine List.findIdx?_eq_none_iff.mpr fun name hmem => beq_false_of_ne ?_
    rintro rfl
    exact hword hmem
  unfold costumeFor
  dsimp only [Value.toText]
  rw [if_neg hpos.ne', hname, h]

theorem costumeFor_next (h : t.Worded) (hpos : 0 < t.costumes.length) :
    t.costumeFor (.text "next backdrop") = .wear ((t.costume + 1) % t.costumes.length) := by
  refine costumeFor_word hpos (h.unnamed _ (by decide)) ?_
  unfold backdropWord?
  simp [h.isStage]

theorem costumeFor_previous (h : t.Worded) (hpos : 0 < t.costumes.length) :
    t.costumeFor (.text "previous backdrop") =
      .wear ((t.costume + t.costumes.length - 1) % t.costumes.length) := by
  refine costumeFor_word hpos (h.unnamed _ (by decide)) ?_
  unfold backdropWord?
  simp [h.isStage]

theorem costumeFor_random (h : t.Worded) (hmany : 1 < t.costumes.length) :
    t.costumeFor (.text "random backdrop") = .another (t.costumes.length - 1) := by
  refine costumeFor_word (by omega) (h.unnamed _ (by decide)) ?_
  unfold backdropWord?
  simp [h.isStage, hmany]

/-- Two costumes are put on, of which the second is the one that showed before. -/
theorem dress_dress {v v' : Value} {i : Nat} (h : t.costumeFor v = .wear i)
    (h' : ({ t with costume := i } : Target).costumeFor v' = .wear t.costume) (pick pick' : Nat) :
    (t.dress v pick).dress v' pick' = t := by
  have hworn : t.dress v pick = { t with costume := i } := by
    unfold dress
    rw [h]
    rfl
  rw [hworn]
  unfold dress
  rw [h']
  rfl

/-- **The next backdrop and the previous one undo each other**, whatever chance picks. -/
theorem dress_undo (h : t.Worded) (hlt : t.costume < t.costumes.length) (pick pick' : Nat) :
    (t.dress (.text "next backdrop") pick).dress (.text "previous backdrop") pick' = t ∧
      (t.dress (.text "previous backdrop") pick).dress (.text "next backdrop") pick' = t := by
  have hpos : 0 < t.costumes.length := by omega
  have hworded (i : Nat) : ({ t with costume := i } : Target).Worded := ⟨h.isStage, h.unnamed⟩
  refine ⟨dress_dress (costumeFor_next h hpos) ?_ _ _,
    dress_dress (costumeFor_previous h hpos) ?_ _ _⟩
  · rw [costumeFor_previous (hworded ((t.costume + 1) % t.costumes.length)) hpos]
    refine congrArg CostumeChoice.wear ?_
    show ((t.costume + 1) % t.costumes.length + t.costumes.length - 1) % t.costumes.length = _
    by_cases hnext : t.costume + 1 < t.costumes.length
    · rw [Nat.mod_eq_of_lt hnext, Nat.add_right_comm, Nat.add_sub_cancel, Nat.add_mod_right,
        Nat.mod_eq_of_lt hlt]
    · have hlast : t.costume + 1 = t.costumes.length := by omega
      rw [hlast, Nat.mod_self, Nat.zero_add, Nat.mod_eq_of_lt (by omega)]
      omega
  · rw [costumeFor_next (hworded ((t.costume + t.costumes.length - 1) % t.costumes.length)) hpos]
    refine congrArg CostumeChoice.wear ?_
    show ((t.costume + t.costumes.length - 1) % t.costumes.length + 1) % t.costumes.length = _
    by_cases hfirst : t.costume = 0
    · have hlast : t.costumes.length - 1 < t.costumes.length := by omega
      rw [hfirst, Nat.zero_add, Nat.mod_eq_of_lt hlast, Nat.sub_add_cancel hpos, Nat.mod_self]
    · have hbefore : t.costume + t.costumes.length - 1 = t.costume - 1 + t.costumes.length := by
        omega
      rw [hbefore, Nat.add_mod_right, Nat.mod_eq_of_lt (show t.costume - 1 < _ by omega),
        Nat.sub_add_cancel (by omega), Nat.mod_eq_of_lt hlt]

/-- **By chance to each of the others**, and never to the one that shows. -/
theorem exists_dress_random (h : t.Worded) (hmany : 1 < t.costumes.length)
    (hlt : t.costume < t.costumes.length) (i : Nat) :
    (∃ pick, t.Allows (.text "random backdrop") pick ∧
      (t.dress (.text "random backdrop") pick).costume = i) ↔
      i < t.costumes.length ∧ i ≠ t.costume := by
  have hpicks (pick : Nat) : t.Allows (.text "random backdrop") pick ↔
      pick < t.costumes.length - 1 := by
    unfold Allows
    rw [costumeFor_random h hmany]
    constructor
    · intro hpick
      exact hpick _ rfl
    · rintro hpick others ⟨⟩
      exact hpick
  have hworn (pick : Nat) : (t.dress (.text "random backdrop") pick).costume =
      if t.costume ≤ pick then pick + 1 else pick := by
    unfold dress
    rw [costumeFor_random h hmany]
    rfl
  simp only [hpicks, hworn]
  constructor
  · rintro ⟨pick, hpick, rfl⟩
    split <;> omega
  · rintro ⟨hi, hne⟩
    -- the ones behind the one that shows are counted without it
    rcases Nat.lt_or_gt_of_ne hne with hbefore | hbehind
    · exact ⟨i, by omega, if_neg (by omega)⟩
    · refine ⟨i - 1, by omega, ?_⟩
      rw [if_pos (by omega)]
      omega

end Words

/-! ## 4. One change after the other -/

/-- What becomes of a target from its data when costumes are put on, in whatever order and by
    whatever values, and when it is cloned: chance picks any of those that it is asked to pick
    from. -/
inductive Dressed (d : TargetData) : Target → Prop
  | start (id : TargetId) (program : Program) : Dressed d (.ofData id d program)
  | dress {t : Target} (h : Dressed d t) {v : Value} {pick : Nat} (hpick : t.Allows v pick) :
      Dressed d (t.dress v pick)
  | next {t : Target} (h : Dressed d t) : Dressed d t.nextCostume
  | clone {t t' : Target} (h : Dressed d t) {id : TargetId} (hclone : t.clone? id = some t') :
      Dressed d t'

section Dressed

variable {d : TargetData} {t : Target}

/-- What is put on changes neither the costumes nor what the target is. -/
theorem Dressed.same (h : Dressed d t) : t.costumes = d.costumes ∧ t.isStage = d.isStage := by
  induction h with
  | start id program => exact ⟨rfl, isStage_ofData id d program⟩
  | dress _ _ ih => exact ih
  | @next t _ ih =>
    have hkin := Kin.nextCostume t
    exact ⟨hkin.costumes.trans ih.1, hkin.isStage.trans ih.2⟩
  | @clone t t' _ id hclone ih =>
    obtain ⟨s, hs, rfl⟩ := Option.map_eq_some_iff.mp hclone
    refine ⟨ih.1, Eq.trans ?_ ih.2⟩
    unfold isStage
    rw [hs]
    rfl

/-- **The position of the costume is never beyond the last one.** -/
theorem Dressed.costume_le (hlt : d.costumes.length < 2 ^ 53) (h : Dressed d t) :
    t.costume ≤ d.costumes.length - 1 := by
  induction h with
  | start id program => exact Nat.min_le_right _ _
  | @dress t h v pick hpick ih =>
    have hcostumes := h.same.1
    rcases Nat.eq_zero_or_pos d.costumes.length with hzero | hpos
    · rw [dress_of_empty (List.length_eq_zero_iff.mp (hcostumes ▸ hzero))]
      exact ih
    · rw [← hcostumes] at hlt hpos ih ⊢
      have hcurrent : t.costume < t.costumes.length := by omega
      have hposition := (within_costumeFor hlt v).position_lt hcurrent hpick
      exact Nat.le_sub_one_of_lt hposition
  | @next t h ih =>
    have hcostumes := h.same.1
    unfold nextCostume
    split
    · exact ih
    · rename_i hne
      have hpos : 0 < t.costumes.length := List.length_pos_iff.mpr (by simpa using hne)
      have hmod := Nat.mod_lt (t.costume + 1) hpos
      rw [← hcostumes]
      exact Nat.le_sub_one_of_lt hmod
  | @clone t t' _ id hclone ih =>
    obtain ⟨s, -, rfl⟩ := Option.map_eq_some_iff.mp hclone
    exact ih

end Dressed

end Target

namespace Machine

variable {H : Type}

theorem target?_put {m : Machine H} {t : Target} (ht : m.target? t.id = some t) (worn : Target) :
    (m.mapTarget t.id fun _ => worn).target? t.id = some worn := by
  rw [target?_mapTarget, if_pos rfl, ht]
  rfl

section Costume

variable (m : Machine H) {t : Target} (v : Value)

/-- The other targets keep what they wear. -/
theorem target?_changeCostume_of_ne {id : TargetId} (hne : id ≠ t.id) :
    (m.changeCostume t v).2.target? id = m.target? id := by
  obtain ⟨dice, pick, -, heq⟩ := m.changeCostume_eq t v
  rw [heq, target?_mapTarget, if_neg hne.symm]
  rfl

variable (ht : m.target? t.id = some t) (hlt : t.costumes.length < 2 ^ 53)

include ht hlt

/-- **A machine that changes a costume** puts on what the value means, and where that is left to
    chance, then one of those that chance picks from. -/
theorem exists_changeCostume :
    ∃ pick, t.Allows v pick ∧
      (m.changeCostume t v).2.target? t.id = some (t.dress v pick) ∧
      (m.changeCostume t v).1 = ((t.dress v pick).costume != t.costume) := by
  obtain ⟨dice, pick, hpick, heq⟩ := m.changeCostume_eq t v
  rw [heq]
  refine ⟨pick, fun others h => ?_, target?_put ht _, rfl⟩
  rw [hpick others h]
  have hwithin := Target.within_costumeFor hlt v
  rw [h] at hwithin
  cases hwithin with
  | another hmany => exact m.dice.below_lt (by omega)

/-- **With other dice a machine puts on any other one** that chance may pick. -/
theorem exists_dice_changeCostume {pick : Nat} (hpick : t.Allows v pick) :
    ∃ dice, (({ m with dice } : Machine H).changeCostume t v).2.target? t.id =
      some (t.dress v pick) := by
  let words : Dice := ⟨fun _ => .ofNat pick, 0⟩
  obtain ⟨dice, drawn, hdrawn, heq⟩ := changeCostume_eq { m with dice := words } t v
  refine ⟨words, ?_⟩
  rw [heq]
  refine (target?_put ht _).trans (congrArg some ?_)
  have hwithin := Target.within_costumeFor hlt v
  unfold Target.Allows at hpick
  unfold Target.dress
  generalize t.costumeFor v = choice at hwithin hpick hdrawn ⊢
  cases hwithin with
  | stay | wear => rfl
  | another hmany =>
    have hlow := hpick _ rfl
    have hsmall : (UInt64.ofNat pick).toNat = pick :=
      UInt64.toNat_ofNat_of_lt' (show pick < 2 ^ 64 by omega)
    have hsame : drawn = pick := by
      rw [hdrawn _ rfl]
      show (UInt64.ofNat pick).toNat % _ = _
      rw [hsmall, Nat.mod_eq_of_lt hlow]
    rw [hsame]

end Costume

end Machine

/-- **The costume that shows is always one that there is.**

    Whatever costume the data says, and whatever is put on since, on the target or a clone of it:
    without costumes the position is zero, and else it is that of the costume whose name shows. On a
    stage where no backdrop bears one of the words for backdrops as its name, `random backdrop`
    leads to each of the other backdrops and to no other place, if there is more than one, and `next
    backdrop` and `previous backdrop` undo each other. A machine that changes the costume puts on
    what the value means by a pick that chance may make, on no other target, and tells whether it is
    another costume; and each such pick is made with some dice. -/
theorem Target.costume_valid {d : TargetData} (hlt : d.costumes.length < 2 ^ 53) {t : Target}
    (h : t.Dressed d) :
    ((d.costumes = [] → t.costume = 0) ∧
      (d.costumes ≠ [] → t.costume < d.costumes.length ∧
        d.costumes[t.costume]? = some t.costumeName)) ∧
    (d.isStage = true → (∀ word ∈ backdropWords, word ∉ d.costumes) →
      (1 < d.costumes.length → ∀ i,
        (∃ pick, t.Allows (.text "random backdrop") pick ∧
          (t.dress (.text "random backdrop") pick).costume = i) ↔
          i < d.costumes.length ∧ i ≠ t.costume) ∧
      ∀ pick pick',
        (t.dress (.text "next backdrop") pick).dress (.text "previous backdrop") pick' = t ∧
        (t.dress (.text "previous backdrop") pick).dress (.text "next backdrop") pick' = t) ∧
    ∀ (H : Type) (m : Machine H) (v : Value), m.target? t.id = some t →
      (∃ pick, t.Allows v pick ∧ (t.dress v pick).Dressed d ∧
        (m.changeCostume t v).2.target? t.id = some (t.dress v pick) ∧
        ((m.changeCostume t v).1 = true ↔ (t.dress v pick).costume ≠ t.costume)) ∧
      (∀ id ≠ t.id, (m.changeCostume t v).2.target? id = m.target? id) ∧
      ∀ pick, t.Allows v pick → ∃ dice,
        (({ m with dice } : Machine H).changeCostume t v).2.target? t.id =
          some (t.dress v pick) := by
  obtain ⟨hcostumes, hstage⟩ := h.same
  have hle := h.costume_le hlt
  rw [← hcostumes] at hlt hle ⊢
  refine ⟨⟨fun hempty => ?_, fun hne => ?_⟩, fun hisStage hwords => ?_, fun H m v ht => ?_⟩
  · rw [hempty] at hle
    exact Nat.le_zero.mp hle
  · have hpos := List.length_pos_iff.mpr hne
    have hvalid : t.costume < t.costumes.length := by omega
    refine ⟨hvalid, ?_⟩
    unfold costumeName
    rw [List.getD_eq_getElem?_getD, List.getElem?_eq_getElem hvalid]
    rfl
  · have hworded : t.Worded := ⟨hstage.trans hisStage, hwords⟩
    refine ⟨fun hmany i => exists_dress_random hworded hmany (by omega) i, fun pick pick' => ?_⟩
    by_cases hempty : t.costumes = []
    · simp only [dress_of_empty hempty, and_self]
    · have hpos := List.length_pos_iff.mpr hempty
      exact dress_undo hworded (by omega) pick pick'
  · obtain ⟨pick, hpick, htarget, hchanged⟩ := m.exists_changeCostume v ht hlt
    refine ⟨⟨pick, hpick, h.dress hpick, htarget, ?_⟩,
      fun id hne => m.target?_changeCostume_of_ne v hne,
      fun pick hpick => m.exists_dice_changeCostume v ht hlt hpick⟩
    rw [hchanged, bne_iff_ne]

/-- A stage with three backdrops, of which the data names a tenth. -/
def skies : TargetData where
  name := "Skies"
  isStage := true
  costumes := ["dawn", "noon", "dusk"]
  currentCostume := 9

/-- The stage after a number far below zero and the next costume. -/
def skiesAfter : Target :=
  ((Target.ofData 0 skies {}).dress (.number (-1e300)) 0).nextCostume

theorem Target.skies_costume_valid :
    skies.costumes.length < 2 ^ 53 ∧ skiesAfter.Dressed skies ∧ skiesAfter.costume = 1 ∧
      skies.costumes[skiesAfter.costume]? = some skiesAfter.costumeName ∧
      (∃ pick, skiesAfter.Allows (.text "random backdrop") pick ∧
        (skiesAfter.dress (.text "random backdrop") pick).costume = 2) ∧
      (skiesAfter.dress (.text "next backdrop") 0).dress (.text "previous backdrop") 0 =
        skiesAfter ∧
      (Machine.still [skiesAfter] ()).target? skiesAfter.id = some skiesAfter ∧
      ∃ dice, (({ Machine.still [skiesAfter] () with dice } : Machine Unit).changeCostume skiesAfter
        (.text "random backdrop")).2.target? skiesAfter.id =
          some (skiesAfter.dress (.text "random backdrop") 1) := by
  have hchoice : (Target.ofData 0 skies {}).costumeFor (.number (-1e300)) = .wear 0 := by
    decide +kernel
  have hdressed : skiesAfter.Dressed skies := by
    refine .next (.dress (.start 0 {}) fun others h => ?_)
    rw [hchoice] at h
    cases h
  have hcostume : skiesAfter.costume = 1 := by decide +kernel
  have hothers : skiesAfter.costumeFor (.text "random backdrop") = .another 2 := by decide +kernel
  have hfound : (Machine.still [skiesAfter] ()).target? skiesAfter.id = some skiesAfter := by
    have hid : skiesAfter.id = 0 := (Target.Kin.nextCostume _).id
    rw [hid]
    rfl
  obtain ⟨⟨-, hshows⟩, hwords, hmachine⟩ := Target.costume_valid (by decide) hdressed
  obtain ⟨hrandom, hundo⟩ := hwords rfl (by decide)
  obtain ⟨-, -, hdice⟩ := hmachine Unit _ (.text "random backdrop") hfound
  refine ⟨by decide, hdressed, hcostume, (hshows (by decide)).2,
    (hrandom (by decide) 2).mpr (by rw [hcostume]; decide), (hundo 0 0).1, hfound,
    hdice 1 fun others h => ?_⟩
  rw [hothers] at h
  cases h
  decide

end BlockScript
