import BlockScript.Host.Headless
import Mathlib.Data.List.Nodup
import Mathlib.Data.List.Range

/-!
# Tickets of a host without a screen

Questions and sounds take time, and a host without a screen gives a ticket for each. Whoever waits
polls the ticket, and whoever asked takes the answer with it. Many may do so at the same time.

* `Headless.Action`, `Headless.trace`: what is asked of the host, and all that happens;
* `Headless.effect`: what an action does about tickets and answers;
* `Headless.Accounts`: what is known about tickets and answers after each history;
* `Headless.polled_sound`: how long a sound lasts;
* `Headless.answers_delivered`: answers are handed out once and in order, sounds are counted down.
-/

namespace BlockScript.Headless

/-! ## 1. Histories -/

/-- What is asked of the host about questions and sounds. -/
inductive Action
  | ask (question : String)
  | playSound (target sound : String)
  | poll (k : Ticket)
  | takeAnswer (k : Ticket)
  | stopSounds
  | pushAnswer (text : String)
  /-- New sounds last for so many polls. -/
  | setFrames (frames : Nat)

/-- What the host says to it. -/
inductive Reply
  | done
  | ticket (k : Ticket)
  | pending (still : Bool)
  | answer (text : Option String)

/-- The answer that it gives. -/
def Reply.answer? : Reply → Option String
  | .answer text => text
  | _ => none

/-- Does what is asked. -/
def act (h : Headless) : Action → Reply × Headless
  | .ask question => (.ticket (h.ask question).1, (h.ask question).2)
  | .playSound target sound => (.ticket (h.playSound target sound).1, (h.playSound target sound).2)
  | .poll k => (.pending (h.poll k).1, (h.poll k).2)
  | .takeAnswer k => (.answer (h.takeAnswer k).1, (h.takeAnswer k).2)
  | .stopSounds => (.done, h.stopSounds)
  | .pushAnswer text => (.done, h.pushAnswer text)
  | .setFrames frames => (.done, { h with soundFrames := frames })

/-- What a ticket stands for. -/
def standing (h : Headless) (k : Ticket) : Option Pending := h.pending.lookup k

/-- The answer that a question got, given what its ticket stood for before and after. -/
def gained? : Option Pending → Option Pending → Option String
  | some .question, some (.answered text) => some text
  | _, _ => none

/-- An action, and the host before it. -/
structure Event where
  host : Headless
  action : Action

namespace Event

variable (e : Event)

/-- What the host said. -/
def reply : Reply := (e.host.act e.action).1

/-- The host after the action. -/
def after : Headless := (e.host.act e.action).2

/-- The ticket that was given. -/
def issued? : Option Ticket :=
  match e.reply with
  | .ticket k => some k
  | _ => none

/-- The ticket that was given for a question. -/
def asked? : Option Ticket :=
  match e.action with
  | .ask _ => e.issued?
  | _ => none

/-- The ticket that was given for a sound. -/
def played? : Option Ticket :=
  match e.action with
  | .playSound .. => e.issued?
  | _ => none

/-- The answer that was pushed. -/
def pushed? : Option String :=
  match e.action with
  | .pushAnswer text => some text
  | _ => none

/-- The question that got an answer when it was polled, with the answer. -/
def handed? : Option (Ticket × String) :=
  match e.action with
  | .poll k => (gained? (e.host.standing k) (e.after.standing k)).map fun text => (k, text)
  | _ => none

/-- The answer that was taken, after the ticket with which it was. -/
def taken? : Option (Ticket × String) :=
  match e.action with
  | .takeAnswer k => e.reply.answer?.map fun text => (k, text)
  | _ => none

/-- What was said to a poll of a ticket. -/
def polled? (k : Ticket) : Option Bool :=
  match e.action, e.reply with
  | .poll j, .pending still => if j = k then some still else none
  | _, _ => none

end Event

/-- The host after some actions. -/
def perform (h : Headless) (actions : List Action) : Headless :=
  actions.foldl (fun h a => (h.act a).2) h

/-- All that happens, oldest first. -/
def trace (h : Headless) : List Action → List Event
  | [] => []
  | a :: rest => ⟨h, a⟩ :: trace (h.act a).2 rest

/-- The tickets that were given, oldest first. -/
def issued (es : List Event) : List Ticket := es.filterMap Event.issued?

/-- Those for questions. -/
def asked (es : List Event) : List Ticket := es.filterMap Event.asked?

/-- Those for sounds. -/
def played (es : List Event) : List Ticket := es.filterMap Event.played?

/-- The answers that were pushed, oldest first. -/
def pushed (es : List Event) : List String := es.filterMap Event.pushed?

/-- Which question got which answer, in the order of the polls that took them. -/
def handed (es : List Event) : List (Ticket × String) := es.filterMap Event.handed?

/-- Which answer was taken with which ticket. -/
def taken (es : List Event) : List (Ticket × String) := es.filterMap Event.taken?

/-- What was said to the polls of a ticket. -/
def polled (k : Ticket) (es : List Event) : List Bool := es.filterMap (Event.polled? · k)

theorem perform_append (h : Headless) (as bs : List Action) :
    h.perform (as ++ bs) = (h.perform as).perform bs := List.foldl_append

theorem trace_append (h : Headless) (as bs : List Action) :
    h.trace (as ++ bs) = h.trace as ++ (h.perform as).trace bs := by
  induction as generalizing h with
  | nil => rfl
  | cons a rest ih => exact congrArg _ (ih _)

theorem trace_concat (h : Headless) (as : List Action) (a : Action) :
    h.trace (as ++ [a]) = h.trace as ++ [⟨h.perform as, a⟩] := trace_append h as [a]

theorem perform_concat (h : Headless) (as : List Action) (a : Action) :
    h.perform (as ++ [a]) = ((h.perform as).act a).2 := perform_append h as [a]

/-! ## 2. What an action changes -/

/-- Each ticket stands for one thing, and those to come stand for none yet. -/
structure Sound (h : Headless) : Prop where
  nodup : (h.pending.map (·.1)).Nodup
  below : ∀ k ∈ h.pending.map (·.1), k < h.nextTicket

section Standing

variable {h : Headless} {k : Ticket}

theorem lookup_entry (k : Ticket) (e : Ticket × Pending) (rest : List (Ticket × Pending)) :
    (e :: rest).lookup k = if k = e.1 then some e.2 else rest.lookup k := by
  rw [List.lookup_cons]
  by_cases hk : k = e.1
  · rw [if_pos hk, beq_iff_eq.mpr hk]
  · rw [if_neg hk, beq_false_of_ne hk]

theorem mem_of_standing {p : Pending} (hk : h.standing k = some p) :
    k ∈ h.pending.map (·.1) := by
  obtain ⟨l₁, l₂, hl, -⟩ := List.lookup_eq_some_iff.mp hk
  rw [hl]
  simp

theorem Sound.standing_of_le (hs : h.Sound) (hk : h.nextTicket ≤ k) : h.standing k = none := by
  cases hstands : h.standing k with
  | none => rfl
  | some p =>
    exact absurd (hs.below k (mem_of_standing hstands)) (Nat.not_lt.mpr hk)

theorem Sound.lt_of_standing (hs : h.Sound) {p : Pending} (hk : h.standing k = some p) :
    k < h.nextTicket := hs.below k (mem_of_standing hk)

/-- A new ticket stands for what it was given for. -/
theorem Sound.standing_issue (hs : h.Sound) (p : Pending) (j : Ticket) :
    (h.issue p).2.standing j = if j = h.nextTicket then some p else h.standing j := by
  have happend : (h.issue p).2.standing j =
      (h.standing j).or ([(h.nextTicket, p)].lookup j) := List.lookup_append
  rw [happend]
  split
  · rename_i heq
    rw [heq, hs.standing_of_le (Nat.le_refl _), lookup_entry, if_pos rfl]
    rfl
  · rename_i hne
    rw [lookup_entry, if_neg hne, List.lookup_nil, Option.or_none]

theorem standing_setPending (h : Headless) (k : Ticket) (p : Pending) (j : Ticket) :
    (h.setPending k p).standing j = if j = k then (h.standing j).map fun _ => p
      else h.standing j := by
  unfold standing setPending
  dsimp only
  induction h.pending with
  | nil => simp
  | cons e rest ih =>
    rw [List.map_cons, lookup_entry, lookup_entry, ih]
    by_cases hek : e.1 = k
    · by_cases hjk : j = k <;> simp [hek, hjk]
    · by_cases hjk : j = k <;> simp [hek, hjk, Ne.symm hek]

theorem standing_forget (h : Headless) (k j : Ticket) :
    (h.forget k).standing j = if j = k then none else h.standing j := by
  unfold standing forget
  dsimp only
  induction h.pending with
  | nil => simp
  | cons e rest ih =>
    rw [List.filter_cons, lookup_entry]
    by_cases hek : e.1 = k
    · rw [if_neg (by simp [hek]), ih]
      by_cases hjk : j = k <;> simp [hek, hjk]
    · rw [if_pos (by simp [hek]), lookup_entry, ih]
      by_cases hjk : j = k <;> simp [hjk, Ne.symm hek]

/-- When all sounds end, tickets of sounds stand for nothing, and others for what they did. -/
theorem Sound.standing_stopSounds (hs : h.Sound) (j : Ticket) :
    h.stopSounds.standing j = (h.standing j).filter (!isSound ·) := by
  have hentries (es : List (Ticket × Pending)) (hes : (es.map (·.1)).Nodup) :
      (es.filter fun e => !isSound e.2).lookup j = (es.lookup j).filter (!isSound ·) := by
    induction es with
    | nil => rfl
    | cons e rest ih =>
      obtain ⟨hnew, hrest⟩ := List.nodup_cons.mp hes
      rw [List.filter_cons, lookup_entry]
      by_cases hje : j = e.1
      · rw [if_pos hje]
        cases he : isSound e.2 with
        | false =>
          rw [if_pos (by rfl), lookup_entry, if_pos hje, Option.filter_some, he]
          rfl
        | true =>
          -- the ticket is nowhere else
          have hgone : rest.lookup j = none := by
            rw [List.lookup_eq_none_iff]
            intro e' he'
            have hne : e'.1 ≠ e.1 := fun heq => hnew (List.mem_map.mpr ⟨e', he', heq⟩)
            simpa [hje] using Ne.symm hne
          rw [if_neg (by simp), ih hrest, hgone, Option.filter_some, he]
          rfl
      · rw [if_neg hje, ← ih hrest]
        split
        · rw [lookup_entry, if_neg hje]
        · rfl
  exact hentries h.pending hs.nodup

end Standing

/-- What a poll does. -/
inductive Polls (h : Headless) (k : Ticket) : Bool × Headless → Prop
  /-- The ticket stands for nothing, or its question has an answer. -/
  | idle (hk : ∀ p, h.standing k = some p → ∃ text, p = .answered text) : Polls h k (false, h)
  | waiting (hk : h.standing k = some .question) (ha : h.answers = []) : Polls h k (true, h)
  | handed {text : String} {rest : List String} (hk : h.standing k = some .question)
      (ha : h.answers = text :: rest) :
      Polls h k (false, { h with answers := rest }.setPending k (.answered text))
  | spent (hk : h.standing k = some (.sound 0)) : Polls h k (false, h.forget k)
  | sounding {frames : Nat} (hk : h.standing k = some (.sound (frames + 1))) :
      Polls h k (true, h.setPending k (.sound frames))

theorem polls (h : Headless) (k : Ticket) : Polls h k (h.poll k) := by
  unfold poll
  split
  · rename_i hk
    exact .idle fun p hp => by cases hk.symm.trans hp
  · rename_i text hk
    exact .idle fun p hp => by
      cases hk.symm.trans hp
      exact ⟨text, rfl⟩
  · rename_i hk
    split
    · rename_i ha
      exact .waiting hk ha
    · rename_i ha
      exact .handed hk ha
  · rename_i hk
    exact .spent hk
  · rename_i hk
    exact .sounding hk

/-- What an action makes of what a ticket stands for. -/
inductive Shift (e : Event) (k : Ticket) : Option Pending → Option Pending → Prop
  | same (p : Option Pending) : Shift e k p p
  | asked (h : e.asked? = some k) : Shift e k none (some .question)
  | played (h : e.played? = some k) : Shift e k none (some (.sound e.host.soundFrames))
  | handed {text : String} (h : e.handed? = some (k, text)) :
      Shift e k (some .question) (some (.answered text))
  | counted {frames : Nat} (h : e.action = .poll k) :
      Shift e k (some (.sound (frames + 1))) (some (.sound frames))
  | ended {frames : Nat} (h : e.action = .poll k ∨ e.action = .stopSounds) :
      Shift e k (some (.sound frames)) none
  | taken {p : Pending} (h : e.action = .takeAnswer k)
      (hp : ∀ text, p = .answered text → e.taken? = some (k, text)) : Shift e k (some p) none

/-- All that an action does about tickets and answers. -/
structure Effect (e : Event) : Prop where
  sound : e.after.Sound
  tickets : List.range e.host.nextTicket ++ e.issued?.toList = List.range e.after.nextTicket
  answers : e.host.answers ++ e.pushed?.toList =
    (e.handed?.map (·.2)).toList ++ e.after.answers
  standing : ∀ k, Shift e k (e.host.standing k) (e.after.standing k)
  asked : ∀ k, e.asked? = some k → e.issued? = some k ∧ e.after.standing k = some .question
  played : ∀ k, e.played? = some k →
    e.issued? = some k ∧ e.after.standing k = some (.sound e.host.soundFrames)
  handed : ∀ k text, e.handed? = some (k, text) →
    e.host.standing k = some .question ∧ e.after.standing k = some (.answered text)
  taken : ∀ k text, e.taken? = some (k, text) →
    e.host.standing k = some (.answered text) ∧ e.after.standing k = none
  dropped : ∀ k, e.action = .takeAnswer k → e.after.standing k = none
  silenced : e.action = .stopSounds → ∀ k frames, e.after.standing k ≠ some (.sound frames)

section Effects

variable {h : Headless}

/-- Tickets may be forgotten. -/
theorem Sound.sublist (hs : h.Sound) {h' : Headless}
    (hkeys : (h'.pending.map (·.1)).Sublist (h.pending.map (·.1)))
    (hnext : h'.nextTicket = h.nextTicket) : h'.Sound :=
  ⟨hs.nodup.sublist hkeys, fun k hk => hnext ▸ hs.below k (hkeys.subset hk)⟩

theorem Sound.issue (hs : h.Sound) (p : Pending) : (h.issue p).2.Sound := by
  have hkeys : (h.issue p).2.pending.map (·.1) = h.pending.map (·.1) ++ [h.nextTicket] :=
    List.map_append
  refine ⟨?_, fun k hk => ?_⟩
  · rw [hkeys, List.nodup_append]
    refine ⟨hs.nodup, List.nodup_singleton _, fun j hj k hk heq => ?_⟩
    have hlt := hs.below j hj
    rw [heq, List.mem_singleton.mp hk] at hlt
    exact Nat.lt_irrefl _ hlt
  · rw [hkeys, List.mem_append] at hk
    rcases hk with hk | hk
    · exact Nat.lt_succ_of_lt (hs.below k hk)
    · exact Nat.lt_succ_of_le (Nat.le_of_eq (List.mem_singleton.mp hk))

theorem Sound.setPending (hs : h.Sound) (k : Ticket) (p : Pending) : (h.setPending k p).Sound := by
  refine hs.sublist ?_ rfl
  have hkeys : (h.setPending k p).pending.map (·.1) = h.pending.map (·.1) := by
    unfold Headless.setPending
    rw [List.map_map]
    refine List.map_congr_left fun e _ => ?_
    by_cases he : e.1 = k <;> simp [he]
  rw [hkeys]

theorem Sound.forget (hs : h.Sound) (k : Ticket) : (h.forget k).Sound :=
  hs.sublist (List.filter_sublist.map _) rfl

/-- Where nothing is given, handed over or taken, and all tickets stand for what they did. -/
theorem effect_quiet {e : Event} (hs : e.after.Sound)
    (hnext : e.after.nextTicket = e.host.nextTicket)
    (hanswers : e.host.answers ++ e.pushed?.toList = e.after.answers)
    (hstanding : ∀ k, Shift e k (e.host.standing k) (e.after.standing k))
    (hissued : e.issued? = none ∧ e.asked? = none ∧ e.played? = none)
    (hhanded : e.handed? = none ∧ e.taken? = none)
    (hdropped : ∀ k, e.action = .takeAnswer k → e.after.standing k = none)
    (hsilenced : e.action = .stopSounds → ∀ k frames, e.after.standing k ≠ some (.sound frames)) :
    Effect e := by
  obtain ⟨hissued, hasked, hplayed⟩ := hissued
  obtain ⟨hhanded, htaken⟩ := hhanded
  refine ⟨hs, ?_, ?_, hstanding, ?_, ?_, ?_, ?_, hdropped, hsilenced⟩
  · simp [hissued, hnext]
  · simp [hhanded, hanswers]
  · simp [hasked]
  · simp [hplayed]
  · simp [hhanded]
  · simp [htaken]

/-- A ticket is given, for a question or for a sound. -/
theorem effect_issue {e : Event} {host : Headless} {p : Pending} (hs : host.Sound)
    (hafter : e.after = (host.issue p).2) (hissued : e.issued? = some host.nextTicket)
    (hhost : host.pending = e.host.pending ∧ host.nextTicket = e.host.nextTicket ∧
      host.answers = e.host.answers)
    (hasked : ∀ k, e.asked? = some k → k = host.nextTicket ∧ p = .question)
    (hplayed : ∀ k, e.played? = some k → k = host.nextTicket ∧ p = .sound e.host.soundFrames)
    (hshift : Shift e host.nextTicket none (some p))
    (hnone : e.pushed? = none ∧ e.handed? = none ∧ e.taken? = none)
    (hdropped : ∀ k, e.action ≠ .takeAnswer k) (hsilenced : e.action ≠ .stopSounds) :
    Effect e := by
  obtain ⟨hpending, hnext, hanswers⟩ := hhost
  obtain ⟨hpushed, hhanded, htaken⟩ := hnone
  have hstands (k : Ticket) : e.after.standing k =
      if k = host.nextTicket then some p else e.host.standing k := by
    have hbefore : host.standing k = e.host.standing k := by
      unfold standing
      rw [hpending]
    rw [hafter, hs.standing_issue, hbefore]
  have hnew : e.after.standing host.nextTicket = some p := (hstands _).trans (if_pos rfl)
  refine ⟨hafter ▸ hs.issue p, ?_, ?_, fun k => ?_, fun k hk => ?_, fun k hk => ?_, ?_, ?_,
    fun k hk => absurd hk (hdropped k), fun hstop => absurd hstop hsilenced⟩
  · rw [hafter, hissued, ← hnext]
    exact List.range_succ.symm
  · rw [hafter, hpushed, hhanded, ← hanswers]
    exact List.append_nil _
  · rw [hstands]
    split
    · rename_i heq
      have hfresh : e.host.standing k = none := by
        unfold standing
        rw [← hpending]
        exact hs.standing_of_le (Nat.le_of_eq heq.symm)
      rw [hfresh, heq]
      exact hshift
    · exact .same _
  · obtain ⟨rfl, rfl⟩ := hasked k hk
    exact ⟨hissued, hnew⟩
  · obtain ⟨rfl, rfl⟩ := hplayed k hk
    exact ⟨hissued, hnew⟩
  · simp [hhanded]
  · simp [htaken]

theorem effect_ask (hs : h.Sound) (question : String) : Effect ⟨h, .ask question⟩ := by
  have hs' : Sound { h with questions := h.questions.push question } := ⟨hs.nodup, hs.below⟩
  refine effect_issue hs' rfl rfl ⟨rfl, rfl, rfl⟩ (fun k hk => ?_) (fun k hk => ?_) (.asked rfl)
    ⟨rfl, rfl, rfl⟩ (fun k hk => ?_) (fun hk => ?_)
  · cases hk
    exact ⟨rfl, rfl⟩
  all_goals cases hk

theorem effect_playSound (hs : h.Sound) (target sound : String) :
    Effect ⟨h, .playSound target sound⟩ := by
  have hs' : Sound { h with sounds := h.sounds.push (target, sound) } := ⟨hs.nodup, hs.below⟩
  refine effect_issue hs' rfl rfl ⟨rfl, rfl, rfl⟩ (fun k hk => ?_) (fun k hk => ?_) (.played rfl)
    ⟨rfl, rfl, rfl⟩ (fun k hk => ?_) (fun hk => ?_)
  · cases hk
  · cases hk
    exact ⟨rfl, rfl⟩
  all_goals cases hk

/-- A poll that hands over nothing. -/
theorem effect_poll_quiet {k : Ticket} (hs : (h.poll k).2.Sound)
    (hnext : (h.poll k).2.nextTicket = h.nextTicket)
    (hanswers : (h.poll k).2.answers = h.answers)
    (hother : ∀ j, j ≠ k → (h.poll k).2.standing j = h.standing j)
    (hshift : Shift ⟨h, .poll k⟩ k (h.standing k) ((h.poll k).2.standing k))
    (hgained : gained? (h.standing k) ((h.poll k).2.standing k) = none) :
    Effect ⟨h, .poll k⟩ := by
  refine effect_quiet hs hnext ?_ (fun j => ?_) ⟨rfl, rfl, rfl⟩ ⟨?_, rfl⟩ (fun j hj => ?_)
    (fun hj => ?_)
  · exact (List.append_nil _).trans hanswers.symm
  · by_cases hjk : j = k
    · rw [hjk]
      exact hshift
    · have hsame : (h.poll k).2.standing j = h.standing j := hother j hjk
      show Shift _ j (h.standing j) ((h.poll k).2.standing j)
      rw [hsame]
      exact .same _
  · show Option.map _ (gained? _ _) = none
    rw [Option.map_eq_none_iff]
    exact hgained
  all_goals cases hj

/-- A poll that hands the first of the answers to its question. -/
theorem effect_poll_handed (hs : h.Sound) {k : Ticket} {text : String} {rest : List String}
    (hk : h.standing k = some .question) (ha : h.answers = text :: rest)
    (hafter : Event.after ⟨h, .poll k⟩ =
      { h with answers := rest }.setPending k (.answered text)) :
    Effect ⟨h, .poll k⟩ := by
  have hstands (j : Ticket) : (Event.after ⟨h, .poll k⟩).standing j =
      if j = k then some (.answered text) else h.standing j := by
    rw [hafter, standing_setPending]
    split
    · rename_i heq
      have hj : standing { h with answers := rest } j = some .question := heq ▸ hk
      rw [hj]
      rfl
    · rfl
  have hnow : (Event.after ⟨h, .poll k⟩).standing k = some (.answered text) :=
    (hstands k).trans (if_pos rfl)
  have hhanded : Event.handed? ⟨h, .poll k⟩ = some (k, text) := by
    show Option.map _ (gained? (h.standing k) _) = _
    rw [hk, hnow]
    rfl
  refine ⟨?_, ?_, ?_, fun j => ?_, ?_, ?_, fun j text' hj => ?_, ?_, ?_, ?_⟩
  · rw [hafter]
    exact Sound.setPending (h := { h with answers := rest }) ⟨hs.nodup, hs.below⟩ k _
  · rw [hafter]
    exact List.append_nil _
  · rw [hafter, hhanded]
    exact (List.append_nil _).trans ha
  · rw [hstands]
    split
    · rename_i heq
      subst heq
      show Shift _ j (h.standing j) _
      rw [hk]
      exact .handed hhanded
    · exact .same _
  · intro j hj
    cases hj
  · intro j hj
    cases hj
  · cases hhanded.symm.trans hj
    exact ⟨hk, hnow⟩
  · intro j text' hj
    cases hj
  · intro j hj
    cases hj
  · intro hj
    cases hj

/-- A poll does not give tickets, and hands over just the answer that a question gains. -/
theorem effect_poll (hs : h.Sound) (k : Ticket) : Effect ⟨h, .poll k⟩ := by
  have hpolls := polls h k
  have hquiet := @effect_poll_quiet h k
  generalize hr : h.poll k = r at hpolls hquiet
  cases hpolls with
  | idle hk =>
    refine hquiet hs rfl rfl (fun _ _ => rfl) (.same _) ?_
    cases hstands : h.standing k with
    | none => rfl
    | some p =>
      obtain ⟨text, rfl⟩ := hk p hstands
      rfl
  | waiting hk =>
    refine hquiet hs rfl rfl (fun _ _ => rfl) (.same _) ?_
    rw [hk]
    rfl
  | spent hk =>
    have hgone : (h.forget k).standing k = none := by rw [standing_forget, if_pos rfl]
    refine hquiet (hs.forget k) rfl rfl (fun j hj => ?_) ?_ ?_
    · rw [standing_forget, if_neg hj]
    · rw [hgone, hk]
      exact .ended (.inl rfl)
    · rw [hgone, hk]
      rfl
  | @sounding frames hk =>
    have hless : (h.setPending k (.sound frames)).standing k = some (.sound frames) := by
      rw [standing_setPending, if_pos rfl, hk]
      rfl
    refine hquiet (hs.setPending k _) rfl rfl (fun j hj => ?_) ?_ ?_
    · rw [standing_setPending, if_neg hj]
    · rw [hless, hk]
      exact .counted rfl
    · rw [hless, hk]
      rfl
  | handed hk ha => exact effect_poll_handed hs hk ha (congrArg Prod.snd hr)

theorem takeAnswer_eq_some {k : Ticket} {text : String} :
    (h.takeAnswer k).1 = some text ↔ h.standing k = some (.answered text) := by
  unfold takeAnswer standing
  split
  · rename_i answer hk
    simp [hk]
  · rename_i hno
    refine ⟨fun heq => ?_, fun hk => absurd hk (hno text)⟩
    cases heq

theorem effect_takeAnswer (hs : h.Sound) (k : Ticket) : Effect ⟨h, .takeAnswer k⟩ := by
  have hafter : Event.after ⟨h, .takeAnswer k⟩ = h.forget k := by
    show (h.takeAnswer k).2 = _
    unfold takeAnswer
    split <;> rfl
  have htaken {text : String} (hk : h.standing k = some (.answered text)) :
      Event.taken? ⟨h, .takeAnswer k⟩ = some (k, text) := by
    show (h.takeAnswer k).1.map _ = _
    rw [takeAnswer_eq_some.mpr hk]
    rfl
  have hgone : (Event.after ⟨h, .takeAnswer k⟩).standing k = none := by
    rw [hafter, standing_forget, if_pos rfl]
  refine ⟨?_, ?_, ?_, fun j => ?_, ?_, ?_, ?_, fun j text hj => ?_, ?_, ?_⟩
  · rw [hafter]
    exact hs.forget k
  · rw [hafter]
    exact List.append_nil _
  · rw [hafter]
    exact List.append_nil _
  · by_cases hjk : j = k
    · subst hjk
      rw [hgone]
      show Shift _ j (h.standing j) none
      cases hj : h.standing j with
      | none => exact .same none
      | some p => exact .taken rfl fun text hp => htaken (hp ▸ hj)
    · rw [hafter, standing_forget, if_neg hjk]
      exact .same _
  · intro j hj
    cases hj
  · intro j hj
    cases hj
  · intro j text hj
    cases hj
  · obtain ⟨text', htext, heq⟩ := Option.map_eq_some_iff.mp hj
    cases heq
    exact ⟨takeAnswer_eq_some.mp htext, hgone⟩
  · intro j hj
    cases hj
    exact hgone
  · intro hj
    cases hj

theorem effect_stopSounds (hs : h.Sound) : Effect ⟨h, .stopSounds⟩ := by
  have hstands (k : Ticket) : (Event.after ⟨h, .stopSounds⟩).standing k =
      (h.standing k).filter (!isSound ·) := hs.standing_stopSounds k
  refine effect_quiet (hs.sublist (List.filter_sublist.map _) rfl) rfl (List.append_nil _)
    (fun k => ?_) ⟨rfl, rfl, rfl⟩ ⟨rfl, rfl⟩ (fun k hk => ?_) (fun _ k frames hk => ?_)
  · rw [hstands]
    show Shift _ k (h.standing k) _
    cases hk : h.standing k with
    | none => exact .same none
    | some p =>
      cases p with
      | sound frames => exact .ended (.inr rfl)
      | question | answered => exact .same _
  · cases hk
  · rw [hstands, Option.filter_eq_some_iff] at hk
    cases hk.2

/-- **All that an action does about tickets and answers.** -/
theorem effect {e : Event} (hs : e.host.Sound) : Effect e := by
  obtain ⟨h, a⟩ := e
  -- the last two change no ticket
  have hsame (host : Headless) (hpending : host.pending = h.pending) (k : Ticket) :
      Shift ⟨h, a⟩ k (h.standing k) (host.standing k) := by
    have hstands : host.standing k = h.standing k := by
      unfold standing
      rw [hpending]
    rw [hstands]
    exact .same _
  cases a with
  | ask question => exact effect_ask hs question
  | playSound target sound => exact effect_playSound hs target sound
  | poll k => exact effect_poll hs k
  | takeAnswer k => exact effect_takeAnswer hs k
  | stopSounds => exact effect_stopSounds hs
  | pushAnswer text =>
    refine effect_quiet ⟨hs.nodup, hs.below⟩ rfl rfl (hsame _ rfl) ⟨rfl, rfl, rfl⟩ ⟨rfl, rfl⟩
      (fun k hk => ?_) (fun hk => ?_) <;> cases hk
  | setFrames frames =>
    refine effect_quiet ⟨hs.nodup, hs.below⟩ rfl (List.append_nil _) (hsame _ rfl)
      ⟨rfl, rfl, rfl⟩ ⟨rfl, rfl⟩ (fun k hk => ?_) (fun hk => ?_) <;> cases hk

end Effects

/-! ## 3. What is known after a history -/

/-- A ticket was given, as some count them, and an action was done after that. -/
def Since (given : List Event → List Ticket) (k : Ticket) (a : Action) (es : List Event) : Prop :=
  ∃ before e rest, es = before ++ e :: rest ∧ e.action = a ∧ k ∈ given before

theorem since_concat {given : List Event → List Ticket} {k : Ticket} {a : Action}
    {es : List Event} {e : Event} :
    Since given k a (es ++ [e]) ↔ Since given k a es ∨ e.action = a ∧ k ∈ given es := by
  constructor
  · rintro ⟨before, e', rest, heq, ha, hk⟩
    rcases List.eq_nil_or_concat rest with rfl | ⟨rest', last, rfl⟩
    · obtain ⟨rfl, hlast⟩ := List.append_inj' heq rfl
      cases hlast
      exact .inr ⟨ha, hk⟩
    · have hshift : before ++ e' :: (rest' ++ [last]) = (before ++ e' :: rest') ++ [last] := by simp
      rw [List.concat_eq_append, hshift] at heq
      obtain ⟨rfl, -⟩ := List.append_inj' heq rfl
      exact .inl ⟨before, e', rest', rfl, ha, hk⟩
  · rintro (⟨before, e', rest, rfl, ha, hk⟩ | ⟨ha, hk⟩)
    · exact ⟨before, e', rest ++ [e], by simp, ha, hk⟩
    · exact ⟨es, e, [], rfl, ha, hk⟩

/-- What is known about tickets and answers, after all that happened. -/
structure Accounts (es : List Event) (h : Headless) : Prop where
  sound : h.Sound
  tickets : issued es = List.range h.nextTicket
  answers : pushed es = (handed es).map (·.2) ++ h.answers
  /-- A question waits until it has an answer or is taken back. -/
  questions : ∀ k ∈ asked es, k ∈ issued es ∧ (h.standing k = some .question ∨
    k ∈ (handed es).map (·.1) ∨ Since issued k (.takeAnswer k) es)
  sounds : ∀ k ∈ played es, k ∈ issued es ∧
    ∀ p, h.standing k = some p → ∃ frames, p = .sound frames
  waiting : ∀ k, h.standing k = some .question → k ∈ asked es ∧ k ∉ (handed es).map (·.1)
  kept : ∀ k text, h.standing k = some (.answered text) → (k, text) ∈ handed es
  /-- An answer stays with its question until it is taken. -/
  given : ∀ b ∈ handed es, b.1 ∈ asked es ∧
    (b ∈ taken es ∨ h.standing b.1 = some (.answered b.2))
  spent : ∀ b ∈ taken es, b ∈ handed es ∧ h.standing b.1 = none
  nodup_handed : ((handed es).map (·.1)).Nodup
  nodup_taken : ((taken es).map (·.1)).Nodup
  gone : ∀ k, Since issued k (.takeAnswer k) es ∨ Since played k .stopSounds es →
    k ∈ issued es ∧ h.standing k = none

theorem accounts_nil : Accounts [] {} where
  sound := ⟨List.nodup_nil, fun k hk => absurd hk List.not_mem_nil⟩
  tickets := rfl
  answers := rfl
  questions k hk := absurd hk List.not_mem_nil
  sounds k hk := absurd hk List.not_mem_nil
  waiting k hk := by cases hk
  kept k text hk := by cases hk
  given b hb := absurd hb List.not_mem_nil
  spent b hb := absurd hb List.not_mem_nil
  nodup_handed := List.nodup_nil
  nodup_taken := List.nodup_nil
  gone := by
    rintro k (⟨before, e, rest, heq, -⟩ | ⟨before, e, rest, heq, -⟩) <;> simp at heq

section Accounts

variable {e : Event} {es : List Event} {k : Ticket}

theorem filterMap_concat {β : Type} (f : Event → Option β) (es : List Event) (e : Event) :
    (es ++ [e]).filterMap f = es.filterMap f ++ (f e).toList := by
  rw [List.filterMap_append]
  cases h : f e <;> simp [h]

/-- Whether something new happened, or is known from before. -/
theorem mem_filterMap_concat {β : Type} {f : Event → Option β} {b : β} :
    b ∈ (es ++ [e]).filterMap f ↔ b ∈ es.filterMap f ∨ f e = some b := by
  rw [filterMap_concat, List.mem_append, Option.mem_toList]

/-- Tickets are given in order. -/
theorem Effect.eq_of_issued (he : Effect e) (hk : e.issued? = some k) : k = e.host.nextTicket := by
  have htickets := he.tickets
  rw [hk] at htickets
  have hlength := congrArg List.length htickets
  simp at hlength
  rw [← hlength, List.range_succ] at htickets
  simpa using htickets

theorem Effect.nextTicket_le (he : Effect e) : e.host.nextTicket ≤ e.after.nextTicket := by
  have hlength := congrArg List.length he.tickets
  simp only [List.length_append, List.length_range] at hlength
  exact Nat.le.intro hlength

/-- What stands for nothing any more never does again. -/
theorem Effect.gone (he : Effect e) (hk : e.host.standing k = none) (hlt : k < e.host.nextTicket) :
    e.after.standing k = none := by
  have hshift := he.standing k
  rw [hk] at hshift
  generalize hp : e.after.standing k = p at hshift
  cases hshift with
  | same => rfl
  | asked h => exact absurd (he.eq_of_issued (he.asked k h).1) (Nat.ne_of_lt hlt)
  | played h => exact absurd (he.eq_of_issued (he.played k h).1) (Nat.ne_of_lt hlt)

/-- What becomes of a question. -/
theorem Effect.of_question (he : Effect e) (hk : e.host.standing k = some .question) :
    e.after.standing k = some .question ∨ (∃ text, e.handed? = some (k, text)) ∨
      e.action = .takeAnswer k := by
  have hshift := he.standing k
  rw [hk] at hshift
  generalize e.after.standing k = p at hshift
  cases hshift with
  | same => exact .inl rfl
  | handed h => exact .inr (.inl ⟨_, h⟩)
  | taken h => exact .inr (.inr h)

/-- What becomes of an answer. -/
theorem Effect.of_answered (he : Effect e) {text : String}
    (hk : e.host.standing k = some (.answered text)) :
    e.after.standing k = some (.answered text) ∨ e.taken? = some (k, text) := by
  have hshift := he.standing k
  rw [hk] at hshift
  generalize e.after.standing k = p at hshift
  cases hshift with
  | same => exact .inl rfl
  | taken _ h => exact .inr (h text rfl)

/-- Where a question comes from. -/
theorem Effect.to_question (he : Effect e) (hk : e.after.standing k = some .question) :
    e.host.standing k = some .question ∨ e.asked? = some k := by
  have hshift := he.standing k
  rw [hk] at hshift
  generalize e.host.standing k = p at hshift
  cases hshift with
  | same => exact .inl rfl
  | asked h => exact .inr h

/-- Where an answer comes from. -/
theorem Effect.to_answered (he : Effect e) {text : String}
    (hk : e.after.standing k = some (.answered text)) :
    e.host.standing k = some (.answered text) ∨ e.handed? = some (k, text) := by
  have hshift := he.standing k
  rw [hk] at hshift
  generalize e.host.standing k = p at hshift
  cases hshift with
  | same => exact .inl rfl
  | handed h => exact .inr h

/-- A ticket of a sound stands for a sound, or for nothing. -/
theorem Effect.sound_of_sound (he : Effect e) (hlt : k < e.host.nextTicket)
    (hk : ∀ p, e.host.standing k = some p → ∃ frames, p = .sound frames) (p : Pending)
    (hp : e.after.standing k = some p) : ∃ frames, p = .sound frames := by
  cases hbefore : e.host.standing k with
  | none =>
    rw [he.gone hbefore hlt] at hp
    cases hp
  | some p₀ =>
    obtain ⟨frames, rfl⟩ := hk p₀ hbefore
    have hshift := he.standing k
    rw [hbefore, hp] at hshift
    cases hshift with
    | same => exact ⟨_, rfl⟩
    | counted => exact ⟨_, rfl⟩

/-- The tickets of pairs, with those of one more event. -/
theorem mem_keys_concat {f : Event → Option (Ticket × String)} :
    k ∈ ((es ++ [e]).filterMap f).map (·.1) ↔
      k ∈ (es.filterMap f).map (·.1) ∨ ∃ text, f e = some (k, text) := by
  simp only [List.mem_map, mem_filterMap_concat, or_and_right, exists_or]
  simp

theorem nodup_keys_concat {f : Event → Option (Ticket × String)}
    (h : ((es.filterMap f).map (·.1)).Nodup)
    (hnew : ∀ k text, f e = some (k, text) → k ∉ (es.filterMap f).map (·.1)) :
    (((es ++ [e]).filterMap f).map (·.1)).Nodup := by
  rw [filterMap_concat, List.map_append]
  cases hf : f e with
  | none => simpa using h
  | some b =>
    refine List.nodup_append.mpr ⟨h, List.nodup_singleton _, fun j hj j' hj' heq => ?_⟩
    have hb : j' = b.1 := List.mem_singleton.mp hj'
    exact hnew b.1 b.2 hf (hb ▸ heq ▸ hj)

variable (ha : Accounts es e.host)

include ha

theorem Accounts.lt_of_issued (hk : k ∈ issued es) : k < e.host.nextTicket := by
  rw [ha.tickets] at hk
  exact List.mem_range.mp hk

/-- What stood for nothing after it was given stands for nothing. -/
theorem Accounts.none_concat (hk : k ∈ issued es) (hnone : e.host.standing k = none) :
    k ∈ issued (es ++ [e]) ∧ e.after.standing k = none :=
  ⟨mem_filterMap_concat.mpr (.inl hk), (effect ha.sound).gone hnone (ha.lt_of_issued hk)⟩

theorem Accounts.answers_concat :
    pushed (es ++ [e]) = (handed (es ++ [e])).map (·.2) ++ e.after.answers := by
  have hpushed : pushed (es ++ [e]) = pushed es ++ e.pushed?.toList := filterMap_concat ..
  have hhanded : handed (es ++ [e]) = handed es ++ e.handed?.toList := filterMap_concat ..
  calc pushed (es ++ [e])
      = (handed es).map (·.2) ++ (e.host.answers ++ e.pushed?.toList) := by
        rw [hpushed, ha.answers, List.append_assoc]
    _ = (handed es).map (·.2) ++ ((e.handed?.map (·.2)).toList ++ e.after.answers) := by
        rw [(effect ha.sound).answers]
    _ = (handed (es ++ [e])).map (·.2) ++ e.after.answers := by
        rw [hhanded, List.map_append, List.append_assoc, Option.toList_map]

theorem Accounts.questions_concat (hk : k ∈ asked (es ++ [e])) :
    k ∈ issued (es ++ [e]) ∧ (e.after.standing k = some .question ∨
      k ∈ (handed (es ++ [e])).map (·.1) ∨ Since issued k (.takeAnswer k) (es ++ [e])) := by
  have he := effect ha.sound
  rcases mem_filterMap_concat.mp hk with hk | hk
  · obtain ⟨hissued, hk⟩ := ha.questions k hk
    refine ⟨mem_filterMap_concat.mpr (.inl hissued), ?_⟩
    rcases hk with hk | hk | hk
    · rcases he.of_question hk with hk | hk | hk
      · exact .inl hk
      · exact .inr (.inl (mem_keys_concat.mpr (.inr hk)))
      · exact .inr (.inr (since_concat.mpr (.inr ⟨hk, hissued⟩)))
    · exact .inr (.inl (mem_keys_concat.mpr (.inl hk)))
    · exact .inr (.inr (since_concat.mpr (.inl hk)))
  · obtain ⟨hissued, hstands⟩ := he.asked k hk
    exact ⟨mem_filterMap_concat.mpr (.inr hissued), .inl hstands⟩

theorem Accounts.sounds_concat (hk : k ∈ played (es ++ [e])) :
    k ∈ issued (es ++ [e]) ∧
      ∀ p, e.after.standing k = some p → ∃ frames, p = .sound frames := by
  have he := effect ha.sound
  rcases mem_filterMap_concat.mp hk with hk | hk
  · obtain ⟨hissued, hk⟩ := ha.sounds k hk
    exact ⟨mem_filterMap_concat.mpr (.inl hissued),
      he.sound_of_sound (ha.lt_of_issued hissued) hk⟩
  · obtain ⟨hissued, hstands⟩ := he.played k hk
    refine ⟨mem_filterMap_concat.mpr (.inr hissued), fun p hp => ?_⟩
    exact ⟨_, (Option.some.inj (hstands.symm.trans hp)).symm⟩

theorem Accounts.waiting_concat (hk : e.after.standing k = some .question) :
    k ∈ asked (es ++ [e]) ∧ k ∉ (handed (es ++ [e])).map (·.1) := by
  have he := effect ha.sound
  have hnot : ¬ ∃ text, e.handed? = some (k, text) := by
    rintro ⟨text, htext⟩
    cases (he.handed k text htext).2.symm.trans hk
  rcases he.to_question hk with hbefore | hnew
  · obtain ⟨hasked, hold⟩ := ha.waiting k hbefore
    exact ⟨mem_filterMap_concat.mpr (.inl hasked), fun h => (mem_keys_concat.mp h).elim hold hnot⟩
  · -- a ticket that is new has no answer
    refine ⟨mem_filterMap_concat.mpr (.inr hnew), fun h => (mem_keys_concat.mp h).elim ?_ hnot⟩
    intro hold
    obtain ⟨b, hb, rfl⟩ := List.mem_map.mp hold
    have hlt := ha.lt_of_issued (ha.questions _ (ha.given b hb).1).1
    exact absurd (he.eq_of_issued (he.asked _ hnew).1) (Nat.ne_of_lt hlt)

theorem Accounts.given_concat {b : Ticket × String} (hb : b ∈ handed (es ++ [e])) :
    b.1 ∈ asked (es ++ [e]) ∧
      (b ∈ taken (es ++ [e]) ∨ e.after.standing b.1 = some (.answered b.2)) := by
  have he := effect ha.sound
  rcases mem_filterMap_concat.mp hb with hb | hb
  · obtain ⟨hasked, hb⟩ := ha.given b hb
    refine ⟨mem_filterMap_concat.mpr (.inl hasked), ?_⟩
    rcases hb with hb | hb
    · exact .inl (mem_filterMap_concat.mpr (.inl hb))
    · rcases he.of_answered hb with hb | hb
      · exact .inr hb
      · exact .inl (mem_filterMap_concat.mpr (.inr hb))
  · obtain ⟨hquestion, hanswered⟩ := he.handed b.1 b.2 hb
    exact ⟨mem_filterMap_concat.mpr (.inl (ha.waiting _ hquestion).1), .inr hanswered⟩

/-- An answer that is taken was handed over, and had not been taken. -/
theorem Accounts.of_taken {text : String} (hk : e.taken? = some (k, text)) :
    (k, text) ∈ handed es ∧ k ∉ (taken es).map (·.1) := by
  have hanswered := ((effect ha.sound).taken k text hk).1
  refine ⟨ha.kept k text hanswered, fun hin => ?_⟩
  obtain ⟨b, hb, rfl⟩ := List.mem_map.mp hin
  cases (ha.spent b hb).2.symm.trans hanswered

theorem Accounts.spent_concat {b : Ticket × String} (hb : b ∈ taken (es ++ [e])) :
    b ∈ handed (es ++ [e]) ∧ e.after.standing b.1 = none := by
  have he := effect ha.sound
  rcases mem_filterMap_concat.mp hb with hb | hb
  · obtain ⟨hhanded, hnone⟩ := ha.spent b hb
    have hissued := (ha.questions _ (ha.given b hhanded).1).1
    exact ⟨mem_filterMap_concat.mpr (.inl hhanded), (ha.none_concat hissued hnone).2⟩
  · refine ⟨mem_filterMap_concat.mpr (.inl (ha.of_taken hb).1), ?_⟩
    exact (he.taken b.1 b.2 hb).2

theorem Accounts.gone_concat (hk : Since issued k (.takeAnswer k) (es ++ [e]) ∨
    Since played k .stopSounds (es ++ [e])) :
    k ∈ issued (es ++ [e]) ∧ e.after.standing k = none := by
  have he := effect ha.sound
  rcases hk with hk | hk
  · rcases since_concat.mp hk with hk | ⟨haction, hissued⟩
    · obtain ⟨hissued, hnone⟩ := ha.gone k (.inl hk)
      exact ha.none_concat hissued hnone
    · exact ⟨mem_filterMap_concat.mpr (.inl hissued), he.dropped k haction⟩
  · rcases since_concat.mp hk with hk | ⟨haction, hplayed⟩
    · obtain ⟨hissued, hnone⟩ := ha.gone k (.inr hk)
      exact ha.none_concat hissued hnone
    · obtain ⟨hissued, hsound⟩ := ha.sounds_concat (mem_filterMap_concat.mpr (.inl hplayed))
      refine ⟨hissued, ?_⟩
      cases hafter : e.after.standing k with
      | none => rfl
      | some p =>
        obtain ⟨frames, rfl⟩ := hsound p hafter
        exact absurd hafter (he.silenced haction k frames)

/-- **One more action keeps the accounts.** -/
theorem Accounts.concat : Accounts (es ++ [e]) e.after := by
  have he := effect ha.sound
  refine ⟨he.sound, ?_, ha.answers_concat, fun k => ha.questions_concat,
    fun k => ha.sounds_concat, fun k => ha.waiting_concat, fun k text hk => ?_,
    fun b => ha.given_concat, fun b => ha.spent_concat, ?_, ?_, fun k => ha.gone_concat⟩
  · exact (filterMap_concat ..).trans ((congrArg (· ++ _) ha.tickets).trans he.tickets)
  · rcases he.to_answered hk with hold | hnew
    · exact mem_filterMap_concat.mpr (.inl (ha.kept k text hold))
    · exact mem_filterMap_concat.mpr (.inr hnew)
  · refine nodup_keys_concat ha.nodup_handed fun k text hk => ?_
    exact (ha.waiting k (he.handed k text hk).1).2
  · exact nodup_keys_concat ha.nodup_taken fun k text hk => (ha.of_taken hk).2

end Accounts

/-- **The accounts are right after every history.** -/
theorem accounts (actions : List Action) :
    Accounts (trace {} actions) (perform {} actions) := by
  induction actions using List.reverseRecOn with
  | nil => exact accounts_nil
  | append_singleton as a ih =>
    rw [trace_concat, perform_concat]
    exact ih.concat (e := ⟨perform {} as, a⟩)

/-! ## 4. How long sounds last -/

/-- Whether an action is a poll of a ticket. -/
def Action.polls (k : Ticket) : Action → Bool
  | .poll j => j == k
  | _ => false

/-- Whether an action ends the sound of a ticket. -/
def Action.ends (k : Ticket) : Action → Bool
  | .stopSounds => true
  | .takeAnswer j => j == k
  | _ => false

/-- How often a ticket is polled before its sound is ended. -/
def pollsBeforeEnd (k : Ticket) (actions : List Action) : Nat :=
  (actions.takeWhile fun a => !a.ends k).countP (Action.polls k)

section Sounds

variable {h : Headless} {k : Ticket} {a : Action}

theorem Action.eq_poll (ha : a.polls k = true) : a = .poll k := by
  cases a with
  | poll j => rw [beq_iff_eq.mp ha]
  | _ => cases ha

theorem polled?_of_not_polls (ha : a.polls k = false) : Event.polled? ⟨h, a⟩ k = none := by
  cases a with
  | poll j => exact if_neg (beq_eq_false_iff_ne.mp ha)
  | _ => rfl

theorem polled_cons_poll (rest : List Action) :
    polled k (h.trace (.poll k :: rest)) = (h.poll k).1 :: polled k ((h.poll k).2.trace rest) := by
  have hpolled : Event.polled? ⟨h, .poll k⟩ k = some (h.poll k).1 := if_pos rfl
  exact List.filterMap_cons_some hpolled

theorem polled_cons (ha : a.polls k = false) (rest : List Action) :
    polled k (h.trace (a :: rest)) = polled k ((h.act a).2.trace rest) :=
  List.filterMap_cons_none (polled?_of_not_polls ha)

theorem poll_of_none (hk : h.standing k = none) : h.poll k = (false, h) := by
  unfold poll
  rw [show h.pending.lookup k = none from hk]

theorem poll_of_answered {text : String} (hk : h.standing k = some (.answered text)) :
    h.poll k = (false, h) := by
  unfold poll
  rw [show h.pending.lookup k = some (.answered text) from hk]

theorem poll_of_spent (hk : h.standing k = some (.sound 0)) : h.poll k = (false, h.forget k) := by
  unfold poll
  rw [show h.pending.lookup k = some (.sound 0) from hk]

theorem poll_of_sounding {frames : Nat} (hk : h.standing k = some (.sound (frames + 1))) :
    h.poll k = (true, h.setPending k (.sound frames)) := by
  unfold poll
  rw [show h.pending.lookup k = some (.sound (frames + 1)) from hk]

/-- A ticket that stands for nothing any more is not pending, whatever happens. -/
theorem polled_gone (hs : h.Sound) (hk : h.standing k = none) (hlt : k < h.nextTicket)
    (actions : List Action) :
    polled k (h.trace actions) = List.replicate (actions.countP (Action.polls k)) false := by
  induction actions generalizing h with
  | nil => rfl
  | cons a rest ih =>
    have he : Effect ⟨h, a⟩ := effect hs
    have hrest : polled k ((h.act a).2.trace rest) = _ :=
      ih he.sound (he.gone hk hlt) (Nat.lt_of_lt_of_le hlt he.nextTicket_le)
    cases ha : a.polls k with
    | true =>
      obtain rfl := Action.eq_poll ha
      have hreply : (h.poll k).1 = false := congrArg Prod.fst (poll_of_none hk)
      rw [polled_cons_poll, List.countP_cons_of_pos ha, List.replicate_succ, hreply]
      exact congrArg _ hrest
    | false => rw [polled_cons ha, List.countP_cons_of_neg (by simp [ha]), hrest]

/-- An action that neither polls a sound nor ends it leaves it as it is. -/
theorem Effect.sound_kept {e : Event} (he : Effect e) {frames : Nat}
    (hk : e.host.standing k = some (.sound frames)) (hpolls : e.action.polls k = false)
    (hends : e.action.ends k = false) : e.after.standing k = some (.sound frames) := by
  have hpoll : e.action ≠ .poll k := by
    intro heq
    rw [heq] at hpolls
    exact absurd hpolls (by simp [Action.polls])
  have hshift := he.standing k
  rw [hk] at hshift
  generalize e.after.standing k = p at hshift
  cases hshift with
  | same => rfl
  | counted h => exact absurd h hpoll
  | ended h =>
    rcases h with h | h
    · exact absurd h hpoll
    · rw [h] at hends
      cases hends
  | taken h =>
    rw [h] at hends
    exact absurd hends (by simp [Action.ends])

/-- What ends a sound is no poll, and leaves nothing for the ticket to stand for. -/
theorem Effect.sound_ended {e : Event} (he : Effect e) {frames : Nat}
    (hk : e.host.standing k = some (.sound frames)) (hlt : k < e.host.nextTicket)
    (hends : e.action.ends k = true) : e.action.polls k = false ∧ e.after.standing k = none := by
  cases haction : e.action with
  | stopSounds =>
    refine ⟨rfl, ?_⟩
    cases hafter : e.after.standing k with
    | none => rfl
    | some p =>
      obtain ⟨n, rfl⟩ := he.sound_of_sound hlt (fun p hp => ⟨frames, by simpa [hk] using hp.symm⟩)
        p hafter
      exact absurd hafter (he.silenced haction k n)
  | takeAnswer j =>
    rw [haction] at hends
    obtain rfl : j = k := beq_iff_eq.mp hends
    exact ⟨rfl, he.dropped j haction⟩
  | _ =>
    rw [haction] at hends
    cases hends

/-- **A sound is pending for so many polls as it lasts**, unless it is ended before, and then never
    again. -/
theorem polled_sound (hs : h.Sound) {frames : Nat} (hk : h.standing k = some (.sound frames))
    (actions : List Action) :
    polled k (h.trace actions) =
      List.replicate (min frames (pollsBeforeEnd k actions)) true ++
        List.replicate (actions.countP (Action.polls k) -
          min frames (pollsBeforeEnd k actions)) false := by
  induction actions generalizing h frames with
  | nil => simp [trace, polled, pollsBeforeEnd]
  | cons a rest ih =>
    have he : Effect ⟨h, a⟩ := effect hs
    have hlt := hs.lt_of_standing hk
    have hgone (hnone : (h.act a).2.standing k = none) : polled k ((h.act a).2.trace rest) =
        List.replicate (rest.countP (Action.polls k)) false :=
      polled_gone he.sound hnone (Nat.lt_of_lt_of_le hlt he.nextTicket_le) rest
    cases hends : a.ends k with
    | true =>
      obtain ⟨hpolls, hnone⟩ := he.sound_ended hk hlt hends
      have hzero : pollsBeforeEnd k (a :: rest) = 0 := by simp [pollsBeforeEnd, hends]
      rw [polled_cons hpolls, List.countP_cons_of_neg (by simpa using hpolls), hgone hnone, hzero]
      simp
    | false =>
      have hbefore : pollsBeforeEnd k (a :: rest) =
          pollsBeforeEnd k rest + if a.polls k then 1 else 0 := by
        simp [pollsBeforeEnd, hends, List.countP_cons]
      cases hpolls : a.polls k with
      | false =>
        have hrest : polled k ((h.act a).2.trace rest) = _ :=
          ih he.sound (he.sound_kept hk hpolls hends)
        rw [polled_cons hpolls, hrest, hbefore, hpolls, List.countP_cons_of_neg (by simp [hpolls])]
        rfl
      | true =>
        obtain rfl := Action.eq_poll hpolls
        rw [polled_cons_poll, List.countP_cons_of_pos hpolls, hbefore, hpolls]
        cases frames with
        | zero =>
          have hpoll : h.poll k = (false, h.forget k) := poll_of_spent hk
          have hnone : (h.poll k).2.standing k = none := by
            rw [hpoll, standing_forget, if_pos rfl]
          have hrest : polled k ((h.poll k).2.trace rest) = _ := hgone hnone
          rw [hrest, hpoll, Nat.zero_min]
          rfl
        | succ frames =>
          have hpoll : h.poll k = (true, h.setPending k (.sound frames)) := poll_of_sounding hk
          have hless : (h.poll k).2.standing k = some (.sound frames) := by
            rw [hpoll, standing_setPending, if_pos rfl, hk]
            rfl
          have hrest : polled k ((h.poll k).2.trace rest) = _ := ih he.sound hless
          rw [hrest, hpoll, if_pos rfl, Nat.succ_min_succ, Nat.succ_sub_succ]
          rfl

end Sounds

/-! ## 5. The order of things -/

/-- A ticket with which nothing is to be had: it was never given, its question has an answer, it was
    taken back, or all sounds were ended after it was given for one. -/
inductive Over (es : List Event) (k : Ticket) : Prop
  | unknown (hk : k ∉ issued es)
  | answered (hk : k ∈ (handed es).map (·.1))
  | taken (hk : Since issued k (.takeAnswer k) es)
  | silenced (hk : Since played k .stopSounds es)

/-- What questions and sounds are promised, after all that happened. -/
structure Delivery (es : List Event) (h : Headless) : Prop where
  /-- No ticket is given twice. -/
  distinct : (issued es).Nodup
  /-- Each answer is handed over or still to come, in the order in which they were pushed. -/
  complete : pushed es = (handed es).map (·.2) ++ h.answers
  /-- Only questions get answers, and one at most. -/
  once : ((handed es).map (·.1)).Nodup ∧ ∀ b ∈ handed es, b.1 ∈ asked es
  /-- An answer is taken with the ticket of its question, and once at most. -/
  taken_once : ((taken es).map (·.1)).Nodup ∧ ∀ b ∈ taken es, b ∈ handed es
  /-- It is there to be taken until then. -/
  kept : ∀ b ∈ handed es, b ∉ taken es → (h.takeAnswer b.1).1 = some b.2
  /-- With other tickets there is nothing to take. -/
  nothing : ∀ k text, (h.takeAnswer k).1 = some text → (k, text) ∈ handed es ∧ (k, text) ∉ taken es
  idle : ∀ k, Over es k → h.poll k = (false, h)
  /-- A question waits for an answer, and takes the next one. -/
  waits : ∀ k ∈ asked es, ¬ Over es k → h.answers = [] → h.poll k = (true, h)
  takes : ∀ k ∈ asked es, ¬ Over es k → ∀ text rest, h.answers = text :: rest →
    (h.poll k).1 = false ∧ (h.poll k).2.answers = rest ∧
      ((h.poll k).2.takeAnswer k).1 = some text
  /-- A sound is pending for as many polls as it lasts, unless it is ended before. -/
  sounds : ∀ target sound rest, ∃ n,
    n = min h.soundFrames (pollsBeforeEnd (h.playSound target sound).1 rest) ∧
    polled (h.playSound target sound).1 ((h.playSound target sound).2.trace rest) =
      List.replicate n true ++
        List.replicate (rest.countP (Action.polls (h.playSound target sound).1) - n) false

section Delivery

variable {es : List Event} {h : Headless} {k : Ticket} (ha : Accounts es h)

include ha

/-- Where nothing is to be had, the ticket stands for nothing or for an answer. -/
theorem Accounts.poll_over (hk : Over es k) : h.poll k = (false, h) := by
  cases hk with
  | unknown hk =>
    refine poll_of_none (ha.sound.standing_of_le (Nat.not_lt.mp fun hlt => hk ?_))
    rw [ha.tickets]
    exact List.mem_range.mpr hlt
  | answered hk =>
    obtain ⟨b, hb, rfl⟩ := List.mem_map.mp hk
    rcases (ha.given b hb).2 with htaken | hstands
    · exact poll_of_none (ha.spent b htaken).2
    · exact poll_of_answered hstands
  | taken hk => exact poll_of_none (ha.gone k (.inl hk)).2
  | silenced hk => exact poll_of_none (ha.gone k (.inr hk)).2

theorem Accounts.standing_of_not_over (hk : k ∈ asked es) (hover : ¬ Over es k) :
    h.standing k = some .question := by
  rcases (ha.questions k hk).2 with hstands | hhanded | htaken
  · exact hstands
  · exact absurd (.answered hhanded) hover
  · exact absurd (.taken htaken) hover

theorem Accounts.poll_takes {text : String} {rest : List String} (hk : k ∈ asked es)
    (hover : ¬ Over es k) (hanswers : h.answers = text :: rest) :
    (h.poll k).1 = false ∧ (h.poll k).2.answers = rest ∧
      ((h.poll k).2.takeAnswer k).1 = some text := by
  have hstands := ha.standing_of_not_over hk hover
  have hpoll : h.poll k = (false, { h with answers := rest }.setPending k (.answered text)) := by
    unfold poll
    rw [show h.pending.lookup k = some .question from hstands]
    dsimp only
    rw [hanswers]
  refine ⟨congrArg Prod.fst hpoll, ?_, takeAnswer_eq_some.mpr ?_⟩
  · rw [hpoll]
    rfl
  · have hsame : standing { h with answers := rest } k = some .question := hstands
    rw [hpoll, standing_setPending, if_pos rfl, hsame]
    rfl

theorem Accounts.poll_waits (hk : k ∈ asked es) (hover : ¬ Over es k) (hanswers : h.answers = []) :
    h.poll k = (true, h) := by
  unfold poll
  rw [show h.pending.lookup k = some .question from ha.standing_of_not_over hk hover]
  dsimp only
  rw [hanswers]

end Delivery

/-- **Answers are delivered once and in order, and sounds are counted down.** Whatever was asked,
    played, pushed, polled, taken and stopped before, in any order. -/
theorem answers_delivered (actions : List Action) :
    Delivery (trace {} actions) (perform {} actions) := by
  have ha := accounts actions
  refine ⟨ha.tickets ▸ List.nodup_range, ha.answers,
    ⟨ha.nodup_handed, fun b hb => (ha.given b hb).1⟩,
    ⟨ha.nodup_taken, fun b hb => (ha.spent b hb).1⟩, fun b hb hnot => ?_, fun k text hk => ?_,
    fun k hk => ha.poll_over hk, fun k hk => ha.poll_waits hk, fun k hk hover text rest =>
    ha.poll_takes hk hover, fun target sound rest => ?_⟩
  · exact takeAnswer_eq_some.mpr ((ha.given b hb).2.resolve_left hnot)
  · have hstands := takeAnswer_eq_some.mp hk
    refine ⟨ha.kept k text hstands, fun htaken => ?_⟩
    cases (ha.spent _ htaken).2.symm.trans hstands
  · have he := effect_playSound ha.sound target sound
    exact ⟨_, rfl, polled_sound he.sound (he.played _ rfl).2 rest⟩

end BlockScript.Headless
