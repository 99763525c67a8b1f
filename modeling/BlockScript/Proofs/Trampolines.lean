import BlockScript.Proofs.Resumption
import BlockScript.Proofs.Turns
import Mathlib.Logic.Relation

/-!
# Turns in small moves

A thread at work makes one move after the other: it executes a statement and goes on, or it leaves
for a label and finds other statements there. At last it halts, or it never does. Two pieces of
code are compared move by move.

* `Act.Moves`, `Act.Halts`: one move, and the end of the turn;
* `Act.Lands`: what moves arrive at, and a turn comes to just that (`Act.comes_follow_iff`);
* `Act.lands_pruned_iff`: pruning the statements changes nothing;
* `Act.Answers`: what two threads do is answered by each other, now and from then on;
* `Act.agree_of_answers`: then they come to ends that are related, or neither comes to any.
-/

namespace BlockScript.Act

variable {H : Type}

/-! ## 1. Moves -/

/-- The statements that a thread has at hand, and its turn. -/
abbrev Config (H : Type) := List Stmt × Turn H

/-- How a turn ends when the thread leaves it; none if the thread only leaves for a label. -/
def Exit.result? (t : Turn H) : Exit → Option (Result H Outcome)
  | .stop => some (.ok .finished t)
  | .detached => some (.ok .detached t)
  | .yield l => some (.ok .yielded { t with thread := { t.thread with continuation := l } })
  | .jump l =>
    if (t.program.continuation? l).isSome then none
    else some (.error (.runtime (.noContinuation l)) t)

theorem Exit.result?_jump {t : Turn H} {l : Label} {k : Script.Continuation}
    (hk : t.program.continuation? l = some k) : Exit.result? t (.jump l) = none := by
  simp only [Exit.result?, hk, Option.isSome_some, if_true]

/-- A thread that only leaves for a label finds statements there. -/
theorem Exit.jump_of_result? {t : Turn H} {e : Exit} (h : Exit.result? t e = none) :
    ∃ l k, e = .jump l ∧ t.program.continuation? l = some k := by
  cases e with
  | stop | detached | yield => cases h
  | jump l =>
    cases hk : t.program.continuation? l with
    | some k => exact ⟨l, k, rfl, hk⟩
    | none =>
      simp only [Exit.result?, hk, Option.isSome_none, Bool.false_eq_true, if_false] at h
      cases h

variable [Host H]

/-- One move of a thread. -/
inductive Moves : Config H → Config H → Prop
  | onward {s : Stmt} {t t' : Turn H} {code : List Stmt} (h : exec s t = .ok (.onward code) t')
      (rest : List Stmt) : Moves (s :: rest, t) (code ++ rest, t')
  | jump {s : Stmt} {t t' : Turn H} {l : Label} {k : Script.Continuation}
      (h : exec s t = .ok (.leave (.jump l)) t') (hk : t'.program.continuation? l = some k)
      (rest : List Stmt) : Moves (s :: rest, t) (k.body, t')

/-- The end of a turn. -/
inductive Halts : Config H → Result H Outcome → Prop
  | nil (t : Turn H) : Halts ([], t) (.ok .finished t)
  | leave {s : Stmt} {t t' : Turn H} {e : Exit} {r : Result H Outcome}
      (h : exec s t = .ok (.leave e) t') (hr : Exit.result? t' e = some r) (rest : List Stmt) :
      Halts (s :: rest, t) r
  | fault {s : Stmt} {t t' : Turn H} {e : Fault} (h : exec s t = .error e t')
      (rest : List Stmt) : Halts (s :: rest, t) (.error e t')

/-- A thread makes one move. -/
theorem Moves.unique {c d d' : Config H} (h : Moves c d) (h' : Moves c d') : d' = d := by
  cases h with
  | onward h rest =>
    cases h' with
    | onward h' =>
      cases h.symm.trans h'
      rfl
    | jump h' => cases h.symm.trans h'
  | jump h hk rest =>
    cases h' with
    | onward h' => cases h.symm.trans h'
    | jump h' hk' =>
      cases h.symm.trans h'
      cases hk.symm.trans hk'
      rfl

/-- A thread at the end of its turn makes no move. -/
theorem Halts.not_moves {c d : Config H} {r : Result H Outcome} (h : Halts c r) : ¬ Moves c d := by
  intro hm
  cases hm with
  | onward hexec rest =>
    cases h with
    | leave h => cases hexec.symm.trans h
    | fault h => cases hexec.symm.trans h
  | jump hexec hk rest =>
    cases h with
    | leave h hr =>
      cases hexec.symm.trans h
      rw [Exit.result?_jump hk] at hr
      cases hr
    | fault h => cases hexec.symm.trans h

theorem Halts.unique {c : Config H} {r r' : Result H Outcome} (h : Halts c r) (h' : Halts c r') :
    r' = r := by
  cases h with
  | nil t =>
    cases h'
    rfl
  | leave h hr rest =>
    cases h' with
    | leave h' hr' =>
      cases h.symm.trans h'
      exact Option.some.inj (hr'.symm.trans hr)
    | fault h' => cases h.symm.trans h'
  | fault h rest =>
    cases h' with
    | leave h' => cases h.symm.trans h'
    | fault h' =>
      cases h.symm.trans h'
      rfl

/-! ## 2. What moves arrive at -/

/-- The thread comes to this end, after so many moves. -/
inductive LandsIn : Nat → Config H → Result H Outcome → Prop
  | halt {c : Config H} {r : Result H Outcome} (h : Halts c r) : LandsIn 0 c r
  | move {n : Nat} {c d : Config H} {r : Result H Outcome} (h : Moves c d) (hd : LandsIn n d r) :
      LandsIn (n + 1) c r

/-- The thread comes to this end. -/
def Lands (c : Config H) (r : Result H Outcome) : Prop := ∃ n, LandsIn n c r

theorem LandsIn.unique {n n' : Nat} {c : Config H} {r r' : Result H Outcome} (h : LandsIn n c r)
    (h' : LandsIn n' c r') : r' = r := by
  induction h generalizing n' with
  | halt h =>
    cases h' with
    | halt h' => exact h.unique h'
    | move hm => exact absurd hm h.not_moves
  | move hm _ ih =>
    cases h' with
    | halt h' => exact absurd hm h'.not_moves
    | move hm' hd' =>
      cases hm.unique hm'
      exact ih hd'

theorem Lands.unique {c : Config H} {r r' : Result H Outcome} (h : Lands c r) (h' : Lands c r') :
    r' = r := by
  obtain ⟨n, h⟩ := h
  obtain ⟨n', h'⟩ := h'
  exact h.unique h'

/-- Moves bring the end nearer. -/
theorem LandsIn.after {n : Nat} {c d : Config H} {r : Result H Outcome} (h : LandsIn n c r)
    (hm : Relation.TransGen Moves c d) : ∃ m < n, LandsIn m d r := by
  have hone {n : Nat} {c d : Config H} (h : LandsIn n c r) (hm : Moves c d) :
      ∃ m < n, LandsIn m d r := by
    cases h with
    | halt h => exact absurd hm h.not_moves
    | move hm' hd =>
      cases hm.unique hm'
      exact ⟨_, Nat.lt_succ_self _, hd⟩
  induction hm with
  | single hm => exact hone h hm
  | tail _ hm ih =>
    obtain ⟨m, hlt, hm'⟩ := ih
    obtain ⟨m', hlt', hd⟩ := hone hm' hm
    exact ⟨m', Nat.lt_trans hlt' hlt, hd⟩

theorem Lands.head {c d : Config H} {r : Result H Outcome} (h : Moves c d) (hd : Lands d r) :
    Lands c r := by
  obtain ⟨n, hd⟩ := hd
  exact ⟨n + 1, .move h hd⟩

/-- The end is the same all along the way. -/
theorem lands_iff_of_moves {c d : Config H} (h : Relation.ReflTransGen Moves c d)
    (r : Result H Outcome) : Lands c r ↔ Lands d r := by
  induction h with
  | refl => exact Iff.rfl
  | tail _ hm ih =>
    refine ih.trans ⟨?_, Lands.head hm⟩
    rintro ⟨n, hn⟩
    obtain ⟨m, -, hd⟩ := hn.after (.single hm)
    exact ⟨m, hd⟩

/-- Two threads that leave for the same, and in the same state, come to the same end. -/
theorem lands_iff_of_leave {s s' : Stmt} {rest rest' : List Stmt} {t t' u : Turn H} {e : Exit}
    (h : exec s t = .ok (.leave e) u) (h' : exec s' t' = .ok (.leave e) u)
    (r : Result H Outcome) : Lands (s :: rest, t) r ↔ Lands (s' :: rest', t') r := by
  have hone {s s' : Stmt} {rest rest' : List Stmt} {t t' : Turn H}
      (h : exec s t = .ok (.leave e) u) (h' : exec s' t' = .ok (.leave e) u)
      (hl : Lands (s :: rest, t) r) : Lands (s' :: rest', t') r := by
    obtain ⟨n, hl⟩ := hl
    cases hl with
    | halt hr =>
      cases hr with
      | leave hr hres =>
        cases h.symm.trans hr
        exact ⟨0, .halt (.leave h' hres rest')⟩
      | fault hr => cases h.symm.trans hr
    | move hm hd =>
      cases hm with
      | onward hm => cases h.symm.trans hm
      | jump hm hk =>
        cases h.symm.trans hm
        exact ⟨_, .move (.jump h' hk rest') hd⟩
  exact ⟨hone h h', hone h' h⟩

/-- Two threads that fail in the same way come to the same end. -/
theorem lands_iff_of_fault {s s' : Stmt} {rest rest' : List Stmt} {t t' u : Turn H} {e : Fault}
    (h : exec s t = .error e u) (h' : exec s' t' = .error e u) (r : Result H Outcome) :
    Lands (s :: rest, t) r ↔ Lands (s' :: rest', t') r := by
  have hfault : Lands (s :: rest, t) (.error e u) := ⟨0, .halt (.fault h rest)⟩
  have hfault' : Lands (s' :: rest', t') (.error e u) := ⟨0, .halt (.fault h' rest')⟩
  constructor
  · intro hr
    rw [hfault.unique hr]
    exact hfault'
  · intro hr
    rw [hfault'.unique hr]
    exact hfault

/-! ## 3. Turns and their moves -/

/-- What becomes of the turn once the statements at hand are left, in at most so many steps. -/
def depart (steps : Nat) : Option Exit → Act H Outcome
  | none | some .stop => return .finished
  | some .detached => return .detached
  | some (.yield l) => do
    modifyThread fun t => { t with continuation := l }
    return .yielded
  | some (.jump l) => do follow steps (← codeAt l)

theorem follow_succ (steps : Nat) (code : List Stmt) :
    follow (H := H) (steps + 1) code = block (steps + 1) code >>= depart steps := by
  rw [follow]
  refine bind_congr fun e => ?_
  rcases e with _ | _ | _ | _ | _ <;> rfl

theorem follow_of_block {steps : Nat} {code : List Stmt} {t t' : Turn H} {e : Option Exit}
    (h : block (steps + 1) code t = .ok e t') :
    follow (steps + 1) code t = depart steps e t' := by
  rw [follow_succ, bind_apply, h]

theorem follow_of_fault {steps : Nat} {code : List Stmt} {t t' : Turn H} {e : Fault}
    (h : block (steps + 1) code t = .error e t') : follow (steps + 1) code t = .error e t' := by
  rw [follow_succ, bind_apply, h]

theorem depart_of_result? {t : Turn H} {e : Exit} {r : Result H Outcome}
    (h : Exit.result? t e = some r) (steps : Nat) : depart steps (some e) t = r := by
  cases e with
  | stop | detached | yield =>
    cases h
    rfl
  | jump l =>
    cases hk : t.program.continuation? l with
    | some k =>
      rw [Exit.result?_jump hk] at h
      cases h
    | none =>
      simp only [Exit.result?, hk, Option.isSome_none, Bool.false_eq_true, if_false] at h
      cases h
      simp only [depart, codeAt, bind_apply, get_apply, hk, fail_apply]

theorem depart_jump {t : Turn H} {l : Label} {k : Script.Continuation}
    (hk : t.program.continuation? l = some k) (steps : Nat) :
    depart steps (some (.jump l)) t = follow steps k.body t := by
  rw [depart, bind_apply, codeAt_apply hk]

/-- The end of the turn, once the statements at hand are left, and fewer moves before it. -/
inductive Onwards (n : Nat) : Result H (Option Exit) → Result H Outcome → Prop
  | nil (t : Turn H) : Onwards n (.ok none t) (.ok .finished t)
  | leave {e : Exit} {t : Turn H} {r : Result H Outcome} (hr : Exit.result? t e = some r) :
      Onwards n (.ok (some e) t) r
  | jump {l : Label} {t : Turn H} {k : Script.Continuation} {r : Result H Outcome} {m : Nat}
      (hk : t.program.continuation? l = some k) (hm : m < n) (h : LandsIn m (k.body, t) r) :
      Onwards n (.ok (some (.jump l)) t) r
  | fault (e : Fault) (t : Turn H) : Onwards n (.error e t) (.error e t)

theorem Onwards.mono {n m : Nat} {b : Result H (Option Exit)} {r : Result H Outcome} (hle : n ≤ m)
    (h : Onwards n b r) : Onwards m b r := by
  cases h with
  | nil t => exact .nil t
  | leave hr => exact .leave hr
  | jump hk hlt h => exact .jump hk (Nat.lt_of_lt_of_le hlt hle) h
  | fault e t => exact .fault e t

/-- A thread that comes to an end leaves the statements at hand. -/
theorem LandsIn.ends {n : Nat} {c : Config H} {r : Result H Outcome} (h : LandsIn n c r) :
    ∃ b, Ends c.1 c.2 b ∧ Onwards n b r := by
  induction h with
  | halt h =>
    cases h with
    | nil t => exact ⟨_, .nil t, .nil t⟩
    | leave h hr rest => exact ⟨_, .leave h, .leave hr⟩
    | fault h rest => exact ⟨_, .fault h, .fault _ _⟩
  | @move n _ _ _ h hd ih =>
    cases h with
    | onward h rest =>
      obtain ⟨b, hb, hr⟩ := ih
      exact ⟨b, .onward h hb, hr.mono (Nat.le_succ n)⟩
    | jump h hk rest => exact ⟨_, .leave h, .jump hk (Nat.lt_succ_self n) hd⟩

/-- A thread that leaves the statements at hand comes to what follows. -/
theorem Ends.lands {code : List Stmt} {t : Turn H} {b : Result H (Option Exit)}
    {r : Result H Outcome} {n : Nat} (h : Ends code t b) (hr : Onwards n b r) :
    Lands (code, t) r := by
  induction h with
  | nil t =>
    cases hr
    exact ⟨0, .halt (.nil t)⟩
  | onward hs _ ih => exact (ih hr).head (.onward hs _)
  | @leave s rest t t' e hs =>
    cases hr with
    | leave hr => exact ⟨0, .halt (.leave hs hr rest)⟩
    | jump hk _ h => exact ⟨_, .move (.jump hs hk rest) h⟩
  | @fault s rest t t' e hs =>
    cases hr
    exact ⟨0, .halt (.fault hs rest)⟩

/-- What a turn comes to, its moves arrive at. -/
theorem lands_of_follow {steps : Nat} {code : List Stmt} {t : Turn H}
    (h : Finished (follow steps code t)) : Lands (code, t) (follow steps code t) := by
  induction steps generalizing code t with
  | zero => exact absurd rfl (h t)
  | succ steps ih =>
    have hfinished : Finished (block (steps + 1) code t) := fun u hu => h u (follow_of_fault hu)
    have hends := ends_of_block hfinished
    cases hb : block (steps + 1) code t with
    | error e t' =>
      rw [hb] at hends
      rw [follow_of_fault hb]
      exact hends.lands (n := 0) (.fault e t')
    | ok e t' =>
      rw [hb] at hends
      rw [follow_of_block hb] at h ⊢
      cases e with
      | none => exact hends.lands (n := 0) (.nil t')
      | some e =>
        cases hres : Exit.result? t' e with
        | some r =>
          rw [depart_of_result? hres]
          exact hends.lands (n := 0) (.leave hres)
        | none =>
          obtain ⟨l, k, rfl, hk⟩ := Exit.jump_of_result? hres
          rw [depart_jump hk] at h ⊢
          obtain ⟨n, hn⟩ := ih h
          exact hends.lands (.jump hk (Nat.lt_succ_self n) hn)

/-- What moves arrive at is found by every run of enough steps. -/
theorem LandsIn.follow {n : Nat} {code : List Stmt} {t : Turn H} {r : Result H Outcome}
    (h : LandsIn n (code, t) r) : ∃ m, ∀ steps, m ≤ steps → Act.follow (steps + 1) code t = r := by
  induction n using Nat.strongRecOn generalizing code t with
  | ind n ih =>
    obtain ⟨b, hends, hb⟩ := h.ends
    obtain ⟨m, hm⟩ := hends.block
    have hblock (steps : Nat) (hle : m ≤ steps) : Act.block (steps + 1) code t = b :=
      hm _ (Nat.le_succ_of_le hle)
    cases hb with
    | nil t' => exact ⟨m, fun steps hle => follow_of_block (hblock steps hle)⟩
    | fault e t' => exact ⟨m, fun steps hle => follow_of_fault (hblock steps hle)⟩
    | leave hr =>
      refine ⟨m, fun steps hle => ?_⟩
      rw [follow_of_block (hblock steps hle), depart_of_result? hr]
    | jump hk hlt hland =>
      obtain ⟨m', hm'⟩ := ih _ hlt hland
      refine ⟨max m (m' + 1), fun steps hle => ?_⟩
      obtain ⟨k, rfl⟩ : ∃ k, steps = k + 1 := ⟨steps - 1, by omega⟩
      rw [follow_of_block (hblock _ (by omega)), depart_jump hk]
      exact hm' k (by omega)

/-- **A turn comes to what its moves arrive at.** -/
theorem comes_follow_iff {code : List Stmt} {t : Turn H} {r : Result H Outcome} :
    Comes (follow · code) t r ↔ Finished r ∧ Lands (code, t) r := by
  constructor
  · rintro ⟨hr, steps, rfl⟩
    exact ⟨hr, lands_of_follow hr⟩
  · rintro ⟨hr, n, h⟩
    obtain ⟨m, hm⟩ := h.follow
    exact ⟨hr, m + 1, hm m (Nat.le_refl m)⟩

/-- Pruning the statements at hand changes nothing. -/
theorem lands_pruned_iff {code code' : List Stmt} {t : Turn H} (hp : Script.Pruned code code')
    (henc : Enclosed code t) (r : Result H Outcome) : Lands (code, t) r ↔ Lands (code', t) r := by
  constructor
  · rintro ⟨n, h⟩
    obtain ⟨b, hends, hb⟩ := h.ends
    exact (hends.pruned hp henc).lands hb
  · rintro ⟨n, h⟩
    obtain ⟨b, hends, hb⟩ := h.ends
    exact (hends.unpruned hp henc).lands hb

/-! ## 4. Threads that answer each other -/

/-- Both threads come to ends that are related, or neither comes to any. -/
structure Agree (A : Result H Outcome → Result H Outcome → Prop) (c c' : Config H) : Prop where
  ends : (∃ r, Lands c r) ↔ ∃ r', Lands c' r'
  related : ∀ r r', Lands c r → Lands c' r' → A r r'

/-- What two threads do is answered by each other: their ends are related, or the same, or both make
    moves and are a pair of a kind again. -/
inductive Answers (A : Result H Outcome → Result H Outcome → Prop)
    (S : Config H → Config H → Prop) (c c' : Config H) : Prop
  | halt {r r' : Result H Outcome} (h : Lands c r) (h' : Lands c' r') (ha : A r r')
  | join (h : ∀ r, Lands c r ↔ Lands c' r)
  | move {d d' : Config H} (h : Relation.TransGen Moves c d) (h' : Relation.TransGen Moves c' d')
      (hs : S d d')

variable {A : Result H Outcome → Result H Outcome → Prop} {S : Config H → Config H → Prop}
  {c c' d d' : Config H}

theorem Agree.of_halt {r r' : Result H Outcome} (h : Lands c r) (h' : Lands c' r') (ha : A r r') :
    Agree A c c' := by
  refine ⟨⟨fun _ => ⟨r', h'⟩, fun _ => ⟨r, h⟩⟩, fun r₁ r₁' h₁ h₁' => ?_⟩
  rw [h.unique h₁, h'.unique h₁']
  exact ha

theorem Agree.of_join (hA : ∀ r, A r r) (h : ∀ r, Lands c r ↔ Lands c' r) : Agree A c c' := by
  refine ⟨exists_congr h, fun r r' hr hr' => ?_⟩
  rw [((h r).mp hr).unique hr']
  exact hA r

theorem Agree.of_moves (h : Relation.ReflTransGen Moves c d)
    (h' : Relation.ReflTransGen Moves c' d') (ha : Agree A d d') : Agree A c c' := by
  refine ⟨?_, fun r r' hr hr' => ha.related r r' ((lands_iff_of_moves h r).mp hr)
    ((lands_iff_of_moves h' r').mp hr')⟩
  rw [exists_congr (lands_iff_of_moves h), exists_congr (lands_iff_of_moves h')]
  exact ha.ends

theorem Answers.symm (h : Answers A S c c') : Answers (flip A) (flip S) c' c := by
  cases h with
  | halt h h' ha => exact .halt h' h ha
  | join h => exact .join fun r => (h r).symm
  | move h h' hs => exact .move h' h hs

/-- What one thread comes to is related to what the other comes to. -/
theorem LandsIn.answered (hA : ∀ r, A r r) (hS : ∀ c c', S c c' → Answers A S c c') {n : Nat}
    {r : Result H Outcome} (h : LandsIn n c r) (hs : S c c') : ∃ r', Lands c' r' ∧ A r r' := by
  induction n using Nat.strongRecOn generalizing c c' with
  | ind n ih =>
    cases hS c c' hs with
    | halt hc hc' ha =>
      rw [hc.unique ⟨n, h⟩]
      exact ⟨_, hc', ha⟩
    | join hsame => exact ⟨r, (hsame r).mp ⟨n, h⟩, hA r⟩
    | move hd hd' hs' =>
      obtain ⟨m, hlt, hm⟩ := h.after hd
      obtain ⟨r', hr', ha⟩ := ih m hlt hm hs'
      exact ⟨r', (lands_iff_of_moves hd'.to_reflTransGen r').mpr hr', ha⟩

/-- **Threads that answer each other agree.** -/
theorem agree_of_answers (hA : ∀ r, A r r) (hS : ∀ c c', S c c' → Answers A S c c')
    (hs : S c c') : Agree A c c' := by
  have hthere (r : Result H Outcome) (h : Lands c r) : ∃ r', Lands c' r' ∧ A r r' := by
    obtain ⟨n, h⟩ := h
    exact h.answered hA hS hs
  have hback (r' : Result H Outcome) (h : Lands c' r') : ∃ r, Lands c r ∧ A r r' := by
    obtain ⟨n, h⟩ := h
    exact h.answered (A := flip A) (S := flip S) hA (fun c c' hs => (hS c' c hs).symm) hs
  refine ⟨⟨fun ⟨r, hr⟩ => ?_, fun ⟨r', hr'⟩ => ?_⟩, fun r r' hr hr' => ?_⟩
  · obtain ⟨r', hr', -⟩ := hthere r hr
    exact ⟨r', hr'⟩
  · obtain ⟨r, hr, -⟩ := hback r' hr'
    exact ⟨r, hr⟩
  · obtain ⟨r₁, hr₁, ha⟩ := hthere r hr
    rw [hr₁.unique hr']
    exact ha

/-- Turns that agree come to ends that are related, or both diverge. -/
theorem Agree.comes {code code' : List Stmt} {t t' : Turn H}
    (hfinished : ∀ r r', A r r' → (Finished r ↔ Finished r'))
    (h : Agree A (code, t) (code', t')) :
    (Diverges (follow · code) t ↔ Diverges (follow · code') t') ∧
      ∀ r r', Comes (follow · code) t r → Comes (follow · code') t' r' → A r r' := by
  refine ⟨?_, fun r r' hr hr' => h.related r r' (comes_follow_iff.mp hr).2
    (comes_follow_iff.mp hr').2⟩
  rw [diverges_iff, diverges_iff, ← not_exists, ← not_exists, not_iff_not]
  simp only [comes_follow_iff]
  constructor
  · rintro ⟨r, hr, hland⟩
    obtain ⟨r', hland'⟩ := h.ends.mp ⟨r, hland⟩
    exact ⟨r', (hfinished r r' (h.related r r' hland hland')).mp hr, hland'⟩
  · rintro ⟨r', hr', hland'⟩
    obtain ⟨r, hland⟩ := h.ends.mpr ⟨r', hland'⟩
    exact ⟨r, (hfinished r r' (h.related r r' hland hland')).mpr hr', hland⟩

end BlockScript.Act
