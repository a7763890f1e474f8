import Mathlib.Data.List.Forall2
import ScriptTags.Toml.Reader

/-!
# What readers give

Readers are put together from a few combinators, and so is what can be said of them. A reader
**yields** a property when everything that it reads has it (`Reader.Yields`): sequence, choice, and
repetition hand the property on, so that a statement about a grammar is proved rule by rule and in
the shape of its rules.

A text that is known is followed reader by reader instead: each combinator has a lemma for where its
readers match and one for where they do not, and repetition reads a text that is made of pieces
(`Reader.many_flatten`) if every piece reads as itself before what may follow it (`Reader.Reads`).

The steps that make tables and settings can fail like readers, and a sequence of them succeeds where
each of them does (`bind_eq_ok_iff`).
-/

namespace ScriptTags

theorem toOption_eq_some_iff {ε α : Type} {x : Except ε α} {a : α} :
    x.toOption = some a ↔ x = .ok a := by
  cases x <;> simp [Except.toOption]

/-- A step after a step succeeds if both do. -/
theorem bind_eq_ok_iff {ε α β : Type} {x : Except ε α} {next : α → Except ε β} {b : β} :
    x >>= next = .ok b ↔ ∃ a, x = .ok a ∧ next a = .ok b := by
  cases x with
  | error e => simp [bind, Except.bind]
  | ok a => simp [bind, Except.bind]

/-- A step that only puts away what was read succeeds if it was read. -/
theorem bind_pure_eq_ok_iff {ε α β : Type} {x : Except ε α} {put : α → β} {b : β} :
    (x >>= fun a => pure (put a)) = .ok b ↔ ∃ a, x = .ok a ∧ b = put a := by
  rw [bind_eq_ok_iff]
  refine exists_congr fun a => and_congr_right fun _ => ?_
  exact ⟨fun h => (Except.ok.inj h).symm, fun h => congrArg Except.ok h.symm⟩

/-- A property that every step keeps holds after all steps. -/
theorem foldlM_induction {ε α σ : Type} {step : σ → α → Except ε σ} {P : σ → Prop} {l : List α}
    (hstep : ∀ s, P s → ∀ a ∈ l, ∀ s', step s a = .ok s' → P s') {s s' : σ} (hs : P s)
    (h : l.foldlM step s = .ok s') : P s' := by
  induction l generalizing s with
  | nil => exact Except.ok.inj h ▸ hs
  | cons a l ih =>
    rw [List.foldlM_cons, bind_eq_ok_iff] at h
    obtain ⟨next, hnext, hrest⟩ := h
    refine ih (fun s hs a ha => hstep s hs a (List.mem_cons_of_mem _ ha)) ?_ hrest
    exact hstep s hs a List.mem_cons_self next hnext

namespace Toml.Reader

variable {α β : Type} {r s : Reader α} {next : α → Reader β} {input rest : List Char} {a : α}
  {b : β}

/-! ### Sequence and choice -/

/-- Where the first reader reads, the second goes on with what is left. -/
theorem bind_of_done (h : r input = .done a rest) : (r >>= next) input = next a rest := by
  simp only [bind, h]

/-- A sequence matches nowhere that its first reader does not match. -/
theorem bind_of_mismatch (h : r input = .mismatch) : (r >>= next) input = .mismatch := by
  simp only [bind, h]

/-- A sequence is read if its readers read one after the other. -/
theorem bind_eq_done_iff :
    (r >>= next) input = .done b rest ↔
      ∃ a middle, r input = .done a middle ∧ next a middle = .done b rest := by
  cases h : r input with
  | done a middle => simp [bind_of_done h]
  | mismatch => simp [bind_of_mismatch h]
  | fault fault => simp [bind, h]

/-- A choice is decided by its first reader where that reads; the other is not tried. -/
theorem orElse_of_done (h : r input = .done a rest) : (r <|> s) input = .done a rest := by
  simp only [HOrElse.hOrElse, OrElse.orElse, Alternative.orElse, h]

/-- Where the first reader does not match, the other is tried at the same place. -/
theorem orElse_of_mismatch (h : r input = .mismatch) : (r <|> s) input = s input := by
  simp only [HOrElse.hOrElse, OrElse.orElse, Alternative.orElse, h]

/-- What a choice reads, one of its readers reads. -/
theorem of_orElse_eq_done (h : (r <|> s) input = .done a rest) :
    r input = .done a rest ∨ s input = .done a rest := by
  cases hr : r input with
  | done a' rest' => exact .inl (by rw [← h, orElse_of_done hr])
  | mismatch => exact .inr (by rw [← h, orElse_of_mismatch hr])
  | fault fault => simp [HOrElse.hOrElse, OrElse.orElse, Alternative.orElse, hr] at h

/-! ### What readers yield -/

variable {P : α → Prop} {Q : β → Prop}

/-- **Everything that the reader reads** has the property `P`. -/
def Yields (r : Reader α) (P : α → Prop) : Prop :=
  ∀ input a rest, r input = .done a rest → P a

/-- What everything has is yielded by every reader. -/
theorem Yields.of_forall (h : ∀ a, P a) (r : Reader α) : r.Yields P :=
  fun _ a _ _ => h a

theorem yields_pure {a : α} (h : P a) : (pure a : Reader α).Yields P := by
  intro input b rest hdone
  obtain ⟨rfl, -⟩ := Outcome.done.inj hdone
  exact h

/-- A reader that never reads yields anything. -/
theorem yields_failure : (failure : Reader α).Yields P := by
  intro input a rest hdone
  contradiction

/-- **Sequence.** The last reader may rely on what the first one yields. -/
theorem Yields.bind (hr : r.Yields P) (hnext : ∀ a, P a → (next a).Yields Q) :
    (r >>= next).Yields Q := by
  intro input b rest hdone
  obtain ⟨a, middle, ha, hb⟩ := bind_eq_done_iff.mp hdone
  exact hnext a (hr input a middle ha) middle b rest hb

/-- What a sequence yields is up to its last reader, if it does not look at what came before. -/
theorem yields_bind (hnext : ∀ a, (next a).Yields Q) :
    (r >>= next).Yields Q :=
  (Yields.of_forall (P := fun _ => True) (fun _ => trivial) r).bind fun a _ => hnext a

theorem yields_seqRight {after : Reader β} (h : after.Yields Q) : (r *> after).Yields Q :=
  yields_bind fun _ => h

/-- **Choice.** What both readers yield is yielded, whichever of them reads. -/
theorem Yields.orElse (hr : r.Yields P) (hs : s.Yields P) : (r <|> s).Yields P := by
  intro input a rest hdone
  rcases of_orElse_eq_done hdone with hfirst | hsecond
  · exact hr input a rest hfirst
  · exact hs input a rest hsecond

/-- A step that can fail yields what it has if it succeeds. -/
theorem yields_ofExcept {result : Except Fault α} (h : ∀ a, result = .ok a → P a) :
    (ofExcept result).Yields P := by
  intro input b rest hdone
  cases result with
  | error fault => contradiction
  | ok a =>
    obtain ⟨rfl, -⟩ := Outcome.done.inj hdone
    exact h a rfl

/-- To insist on a reader turns a mismatch into a fault, and a fault reads nothing. -/
theorem Yields.need (hr : r.Yields P) : (need r).Yields P :=
  hr.orElse (yields_ofExcept fun a h => by contradiction)

/-- An option yields the property for what it holds, if it holds anything. -/
theorem Yields.opt (hr : r.Yields P) : (opt r).Yields fun o => ∀ a ∈ o, P a := by
  have hsome : (some <$> r).Yields fun o => ∀ a ∈ o, P a :=
    hr.bind fun a ha => yields_pure fun b hb => Option.some.inj hb ▸ ha
  exact hsome.orElse (yields_pure fun a ha => by contradiction)

/-- **Repetition.** Each thing that is read has the property, by induction on the characters to go
along. -/
theorem Yields.repeatAlong (hr : r.Yields P) (along : List Char) :
    (repeatAlong r along).Yields fun l => ∀ a ∈ l, P a := by
  have hnil : (pure [] : Reader (List α)).Yields fun l => ∀ a ∈ l, P a :=
    yields_pure fun a ha => by contradiction
  induction along with
  | nil => exact hnil
  | cons c along ih =>
    refine hr.opt.bind fun o ho => ?_
    cases o with
    | none => exact hnil
    | some a => exact ih.bind fun l hl => yields_pure (List.forall_mem_cons.mpr ⟨ho a rfl, hl⟩)

theorem Yields.many (hr : r.Yields P) : (many r).Yields fun l => ∀ a ∈ l, P a :=
  fun input l rest hdone => hr.repeatAlong input input l rest hdone

/-- Separators are read and forgotten, so the items alone decide. -/
theorem Yields.sepBy1 {separator : Reader β} (hr : r.Yields P) :
    (sepBy1 r separator).Yields fun l => ∀ a ∈ l, P a :=
  hr.bind fun _ ha => (Yields.many (yields_seqRight hr)).bind fun _ hl =>
    yields_pure (List.forall_mem_cons.mpr ⟨ha, hl⟩)

theorem Yields.sepBy {separator : Reader β} (hr : r.Yields P) :
    (sepBy r separator).Yields fun l => ∀ a ∈ l, P a :=
  hr.sepBy1.orElse (yields_pure fun a ha => by contradiction)

/-! ### Readers at a text that is known -/

theorem seqRight_of_done {after : Reader β} (h : r input = .done a rest) :
    (r *> after) input = after rest :=
  bind_of_done h

theorem seqRight_of_mismatch {after : Reader β} (h : r input = .mismatch) :
    (r *> after) input = .mismatch :=
  bind_of_mismatch h

theorem map_of_done {f : α → β} (h : r input = .done a rest) :
    (f <$> r) input = .done (f a) rest :=
  bind_of_done h

theorem map_of_mismatch {f : α → β} (h : r input = .mismatch) : (f <$> r) input = .mismatch :=
  bind_of_mismatch h

/-- What matches is not left out. -/
theorem opt_of_done (h : r input = .done a rest) : opt r input = .done (some a) rest :=
  orElse_of_done (map_of_done h)

/-- What does not match is left out, and nothing is consumed. -/
theorem opt_of_mismatch (h : r input = .mismatch) : opt r input = .done none input :=
  orElse_of_mismatch (map_of_mismatch h)

/-- A character is taken if it passes the test. -/
theorem satisfy_cons {p : Char → Bool} {c : Char} (h : p c = true) :
    satisfy p (c :: rest) = .done c rest :=
  if_pos h

theorem char_cons (c : Char) : char c (c :: rest) = .done c rest :=
  satisfy_cons (beq_self_eq_true c)

/-- A character is not found before another one, nor at the end. -/
theorem char_of_head?_ne {c : Char} (h : input.head? ≠ some c) : char c input = .mismatch := by
  cases input with
  | nil => rfl
  | cons c' rest =>
    refine if_neg fun heq => h ?_
    rw [eq_of_beq heq, List.head?_cons]

/-- A literal is not found where not even its first character is. -/
theorem literal_of_head?_ne {c : Char} {text : List Char} (h : input.head? ≠ some c) :
    literal (c :: text) input = .mismatch := by
  refine if_neg fun hprefix => h ?_
  cases input with
  | nil => contradiction
  | cons c' rest =>
    rw [List.isPrefixOf_cons_cons, Bool.and_eq_true] at hprefix
    rw [eq_of_beq hprefix.1, List.head?_cons]

/-- A run takes a text of such characters before one that is not. -/
theorem run_append {p : Char → Bool} {text : List Char} (htext : ∀ c ∈ text, p c = true)
    (hrest : ∀ c ∈ rest.head?, p c = false) : run p (text ++ rest) = .done text rest := by
  have htake : rest.takeWhile p = [] := by
    cases rest with
    | nil => rfl
    | cons c rest => exact List.takeWhile_cons_of_neg (Bool.eq_false_iff.mp (hrest c rfl))
  have hdrop : rest.dropWhile p = rest := by
    cases rest with
    | nil => rfl
    | cons c rest => exact List.dropWhile_cons_of_neg (Bool.eq_false_iff.mp (hrest c rfl))
  rw [run, List.takeWhile_append_of_pos htext, List.dropWhile_append_of_pos htext, htake, hdrop,
    List.append_nil]

/-- A run that must not be empty, likewise. -/
theorem run1_append {p : Char → Bool} {text : List Char} (hne : text ≠ [])
    (htext : ∀ c ∈ text, p c = true) (hrest : ∀ c ∈ rest.head?, p c = false) :
    run1 p (text ++ rest) = .done text rest := by
  rw [run1, bind_of_done (run_append htext hrest)]
  have hguard : (guard (!text.isEmpty) : Reader Unit) rest = .done () rest := by
    simp [guard, hne, pure]
  exact bind_of_done hguard

/-- As many characters are taken as are asked for. -/
theorem exactly_append {p : Char → Bool} {text : List Char} (h : ∀ c ∈ text, p c = true) :
    exactly p text.length (text ++ rest) = .done text rest := by
  induction text with
  | nil => rfl
  | cons c text ih =>
    rw [List.forall_mem_cons] at h
    rw [List.length_cons, exactly, List.cons_append, bind_of_done (satisfy_cons h.1),
      bind_of_done (ih h.2)]
    rfl

/-- **The reader reads a text** as `a` wherever what follows it satisfies `Before`. -/
def Reads (r : Reader α) (Before : List Char → Prop) (text : List Char) (a : α) : Prop :=
  ∀ rest, Before rest → r (text ++ rest) = .done a rest

/-- **Repetition** reads pieces one after the other and stops where the reader does not match. No
piece is empty, so there are enough characters to go along. -/
theorem repeatAlong_flatten {Before : List Char → Prop} {texts : List (List Char)} {values : List α}
    (hread : List.Forall₂ (r.Reads Before) texts values)
    (hbefore : ∀ text ∈ texts, text ≠ [] ∧ ∀ rest, Before (text ++ rest)) (hrest : Before rest)
    (hstop : r rest = .mismatch) {along : List Char}
    (halong : texts.flatten.length ≤ along.length) :
    repeatAlong r along (texts.flatten ++ rest) = .done values rest := by
  induction hread generalizing along with
  | nil =>
    cases along with
    | nil => rfl
    | cons c along => exact bind_of_done (opt_of_mismatch hstop)
  | @cons text a texts values hpiece hpieces ih =>
    rw [List.forall_mem_cons] at hbefore
    obtain ⟨⟨hne, -⟩, hothers⟩ := hbefore
    have hpos : 0 < text.length := List.length_pos_iff.mpr hne
    rw [List.flatten_cons, List.length_append] at halong
    -- The rest of the pieces, or what follows them, is a place where the piece may end.
    have hnext : Before (texts.flatten ++ rest) := by
      cases texts with
      | nil => exact hrest
      | cons text' texts =>
        rw [List.flatten_cons, List.append_assoc]
        exact (hothers text' List.mem_cons_self).2 _
    cases along with
    | nil =>
      rw [List.length_nil] at halong
      omega
    | cons c along =>
      rw [List.length_cons] at halong
      rw [List.flatten_cons, List.append_assoc, repeatAlong,
        bind_of_done (opt_of_done (hpiece _ hnext))]
      exact bind_of_done (ih hothers (by omega))

/-- **Repetition** with as many characters to go along as the text has. -/
theorem many_flatten {Before : List Char → Prop} {texts : List (List Char)} {values : List α}
    (hread : List.Forall₂ (r.Reads Before) texts values)
    (hbefore : ∀ text ∈ texts, text ≠ [] ∧ ∀ rest, Before (text ++ rest)) (hrest : Before rest)
    (hstop : r rest = .mismatch) : many r (texts.flatten ++ rest) = .done values rest :=
  repeatAlong_flatten hread hbefore hrest hstop (by simp)

end Toml.Reader

end ScriptTags
