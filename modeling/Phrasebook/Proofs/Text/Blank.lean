import Mathlib.Data.List.Basic
import Mathlib.Data.List.Infix
import Mathlib.Data.List.DropRight
import Phrasebook.Text.Blank

/-!
Cutting text and putting it together again: lines, words, and text without blanks at its ends.
-/

set_option autoImplicit false

namespace Phrasebook.Text

theorem splitAt_ne_nil (cut : Char → Bool) (text : List Char) : splitAt cut text ≠ [] := by
  induction text with
  | nil => simp [splitAt]
  | cons c rest ih =>
    simp only [splitAt]
    split
    · simp
    · split <;> simp_all

theorem splitAt_of_forall {cut : Char → Bool} {piece : List Char}
    (uncut : ∀ c ∈ piece, cut c = false) : splitAt cut piece = [piece] := by
  induction piece with
  | nil => rfl
  | cons c rest ih =>
    have here : cut c = false := uncut c (by simp)
    have below := ih fun d hd => uncut d (by simp [hd])
    simp [splitAt, here, below]

theorem splitAt_congr {cut other : Char → Bool} {text : List Char} (same : ∀ c ∈ text, cut c = other c) :
    splitAt cut text = splitAt other text := by
  induction text with
  | nil => rfl
  | cons c rest ih =>
    rw [splitAt, splitAt, same c (by simp), ih fun d hd => same d (by simp [hd])]

theorem splitAt_append_cons {cut : Char → Bool} {piece rest : List Char} {c : Char}
    (uncut : ∀ d ∈ piece, cut d = false) (hc : cut c = true) :
    splitAt cut (piece ++ c :: rest) = piece :: splitAt cut rest := by
  induction piece with
  | nil => simp [splitAt, hc]
  | cons d piece ih =>
    have here : cut d = false := uncut d (by simp)
    have below := ih fun e he => uncut e (by simp [he])
    simp [splitAt, here, below]

theorem splitAt_append {cut : Char → Bool} (start rest : List Char) {c : Char}
    (hc : cut c = true) : splitAt cut (start ++ c :: rest) = splitAt cut start ++ splitAt cut rest := by
  induction start with
  | nil => simp [splitAt, hc]
  | cons d start ih =>
    rw [List.cons_append, splitAt, splitAt, ih]
    split
    · rfl
    · obtain ⟨piece, pieces, split⟩ := List.exists_cons_of_ne_nil (splitAt_ne_nil cut start)
      simp [split]

theorem exists_mem_splitAt (cut : Char → Bool) {text : List Char} {c : Char}
    (h : c ∈ text) (hc : cut c = false) : ∃ piece ∈ splitAt cut text, c ∈ piece := by
  induction text with
  | nil => cases h
  | cons d rest ih =>
    simp only [splitAt]
    rcases List.mem_cons.mp h with rfl | h
    · rw [hc, if_neg Bool.false_ne_true]
      split
      · exact ⟨[c], by simp, by simp⟩
      · rename_i piece pieces _
        exact ⟨c :: piece, by simp, by simp⟩
    · obtain ⟨piece, hp, hm⟩ := ih h
      split
      · exact ⟨piece, List.mem_cons_of_mem _ hp, hm⟩
      · split
        · rename_i bare
          rw [bare] at hp
          cases hp
        · rename_i first others found
          rw [found] at hp
          rcases List.mem_cons.mp hp with rfl | hp
          · exact ⟨d :: piece, by simp, List.mem_cons_of_mem _ hm⟩
          · exact ⟨piece, List.mem_cons_of_mem _ hp, hm⟩

theorem mem_splitAt {cut : Char → Bool} {text piece : List Char} (hp : piece ∈ splitAt cut text) :
    (∀ c ∈ piece, cut c = false) ∧ ∀ c ∈ piece, c ∈ text := by
  induction text generalizing piece with
  | nil =>
    have empty : piece = [] := by simpa [splitAt] using hp
    simp [empty]
  | cons c rest ih =>
    simp only [splitAt] at hp
    split at hp
    · rcases List.mem_cons.mp hp with rfl | hp
      · simp
      · exact ⟨(ih hp).1, fun d hd => List.mem_cons_of_mem c ((ih hp).2 d hd)⟩
    · rename_i hc
      have uncut : cut c = false := by simpa using hc
      split at hp
      · have alone : piece = [c] := by simpa using hp
        simp [alone, uncut]
      · rename_i first others pieces
        rcases List.mem_cons.mp hp with rfl | hp
        · have below := @ih first (by simp [pieces])
          refine ⟨?_, ?_⟩
          · intro d hd
            rcases List.mem_cons.mp hd with rfl | hd
            · exact uncut
            · exact below.1 d hd
          · intro d hd
            rcases List.mem_cons.mp hd with rfl | hd
            · simp
            · exact List.mem_cons_of_mem c (below.2 d hd)
        · have below := @ih piece (by simp [pieces, hp])
          exact ⟨below.1, fun d hd => List.mem_cons_of_mem c (below.2 d hd)⟩

@[simp] theorem joinWith_nil (separator : List Char) : joinWith separator [] = [] := rfl

@[simp] theorem joinWith_singleton (separator piece : List Char) :
    joinWith separator [piece] = piece := rfl

theorem joinWith_cons {separator piece : List Char} {pieces : List (List Char)}
    (some : pieces ≠ []) :
    joinWith separator (piece :: pieces) = piece ++ separator ++ joinWith separator pieces := by
  cases pieces with
  | nil => exact absurd rfl some
  | cons next pieces => rfl

theorem joinWith_cons_eq_append (separator piece : List Char) (pieces : List (List Char)) :
    joinWith separator (piece :: pieces) = piece ++ pieces.flatMap (separator ++ ·) := by
  induction pieces generalizing piece with
  | nil => simp
  | cons other pieces ih =>
    rw [joinWith_cons (by simp), ih other, List.flatMap_cons, List.append_assoc, List.append_assoc]

theorem joinWith_append {separator : List Char} {first second : List (List Char)} (some : first ≠ [])
    (more : second ≠ []) :
    joinWith separator (first ++ second) =
      joinWith separator first ++ separator ++ joinWith separator second := by
  obtain ⟨piece, first, rfl⟩ := List.exists_cons_of_ne_nil some
  obtain ⟨next, second, rfl⟩ := List.exists_cons_of_ne_nil more
  simp only [List.cons_append, joinWith_cons_eq_append, List.flatMap_append, List.flatMap_cons,
    List.append_assoc]

theorem joinWith_append_singleton {separator last : List Char} {pieces : List (List Char)}
    (some : pieces ≠ []) :
    joinWith separator (pieces ++ [last]) = joinWith separator pieces ++ separator ++ last := by
  rw [joinWith_append some (List.cons_ne_nil last []), joinWith_singleton]

theorem splitAt_joinWith {cut : Char → Bool} {c : Char} (hc : cut c = true)
    {pieces : List (List Char)} (uncut : ∀ piece ∈ pieces, ∀ d ∈ piece, cut d = false)
    (some : pieces ≠ []) : splitAt cut (joinWith [c] pieces) = pieces := by
  induction pieces with
  | nil => exact absurd rfl some
  | cons piece pieces ih =>
    have first := uncut piece (by simp)
    by_cases more : pieces = []
    · rw [more, joinWith_singleton, splitAt_of_forall first]
    · rw [joinWith_cons more, List.append_assoc, List.singleton_append, splitAt_append_cons first hc,
        ih (fun other ho => uncut other (by simp [ho])) more]

theorem joinWith_splitAt (c : Char) (text : List Char) :
    joinWith [c] (splitAt (· == c) text) = text := by
  induction text with
  | nil => rfl
  | cons d rest ih =>
    have full := splitAt_ne_nil (· == c) rest
    by_cases cut : d = c
    · simp only [splitAt, cut, beq_self_eq_true, if_true]
      rw [joinWith_cons full, ih]
      rfl
    · obtain ⟨piece, pieces, split⟩ := List.exists_cons_of_ne_nil full
      have grown : splitAt (· == c) (d :: rest) = (d :: piece) :: pieces := by
        simp [splitAt, cut, split]
      rw [split] at ih
      rw [grown, ← ih, joinWith_cons_eq_append, joinWith_cons_eq_append, List.cons_append]

theorem joinWith_isPrefix (separator : List Char) {start pieces : List (List Char)}
    (h : start <+: pieces) : joinWith separator start <+: joinWith separator pieces := by
  obtain ⟨rest, rfl⟩ := h
  cases start with
  | nil => exact List.nil_prefix
  | cons piece start =>
    rw [List.cons_append, joinWith_cons_eq_append, joinWith_cons_eq_append, List.flatMap_append,
      ← List.append_assoc]
    exact List.prefix_append _ _

theorem mem_joinWith {separator : List Char} {pieces : List (List Char)} {c : Char}
    (h : c ∈ joinWith separator pieces) : c ∈ separator ∨ ∃ piece ∈ pieces, c ∈ piece := by
  fun_induction joinWith separator pieces with
  | case1 => simp at h
  | case2 piece => exact Or.inr ⟨piece, by simp, h⟩
  | case3 piece pieces more ih =>
    simp only [List.mem_append] at h
    rcases h with (h | h) | h
    · exact Or.inr ⟨piece, by simp, h⟩
    · exact Or.inl h
    · rcases ih h with h | ⟨found, hf, hc⟩
      · exact Or.inl h
      · exact Or.inr ⟨found, by simp [hf], hc⟩

@[simp] theorem dropStart?_append (start rest : List Char) :
    dropStart? start (start ++ rest) = some rest := by
  induction start with
  | nil => rfl
  | cons c start ih => simp [dropStart?, ih]

theorem eq_append_of_dropStart? {start text rest : List Char}
    (h : dropStart? start text = some rest) : text = start ++ rest := by
  fun_induction dropStart? start text with
  | case1 text => simpa using h
  | case2 => simp at h
  | case3 start d text ih => simp [ih h]
  | case4 => simp at h

@[simp] theorem dropEnd?_append (start finish : List Char) :
    dropEnd? finish (start ++ finish) = some start := by
  simp [dropEnd?]

def IsTrimmed (text : List Char) : Prop :=
  (∀ c, text.head? = some c → isBlank c = false) ∧ ∀ c, text.getLast? = some c → isBlank c = false

theorem trimStart_of_head {text : List Char}
    (h : ∀ c, text.head? = some c → isBlank c = false) : trimStart text = text := by
  cases text with
  | nil => rfl
  | cons c rest => simp [trimStart, h c rfl]

theorem trimEnd_of_getLast {text : List Char}
    (h : ∀ c, text.getLast? = some c → isBlank c = false) : trimEnd text = text := by
  have reversed : text.reverse.dropWhile isBlank = text.reverse :=
    trimStart_of_head (by simpa using h)
  simp [trimEnd, reversed]

theorem trim_of_isTrimmed {text : List Char} (h : IsTrimmed text) : trim text = text := by
  rw [trim, trimStart_of_head h.1, trimEnd_of_getLast h.2]

theorem dropWhile_ends {α : Type} (p : α → Bool) (items : List α) :
    let kept := ((items.dropWhile p).reverse.dropWhile p).reverse
    kept <:+: items ∧ (∀ item, kept.head? = some item → p item = false) ∧
      ∀ item, kept.getLast? = some item → p item = false := by
  intro kept
  have start : kept <+: items.dropWhile p := by
    have ending := List.dropWhile_suffix p (l := (items.dropWhile p).reverse)
    rw [← List.reverse_prefix] at ending
    simpa [kept] using ending
  refine ⟨start.isInfix.trans (List.dropWhile_suffix p).isInfix, fun item first => ?_,
    fun item last => ?_⟩
  · have started : (items.dropWhile p).head? = some item := by
      obtain ⟨rest, whole⟩ := start
      rw [← whole, List.head?_append, first]
      rfl
    have found := List.head?_dropWhile_not p items
    rwa [started] at found
  · have ended := List.head?_dropWhile_not p (items.dropWhile p).reverse
    rw [List.getLast?_reverse] at last
    rwa [last] at ended

theorem mem_of_mem_trim {text : List Char} {c : Char} (h : c ∈ trim text) : c ∈ text :=
  (dropWhile_ends isBlank text).1.subset h

theorem isTrimmed_trim (text : List Char) : IsTrimmed (trim text) := (dropWhile_ends isBlank text).2

@[simp] theorem trim_trim (text : List Char) : trim (trim text) = trim text :=
  trim_of_isTrimmed (isTrimmed_trim text)

@[simp] theorem trim_nil : trim [] = [] := rfl

theorem trim_cons_of_isBlank {c : Char} {text : List Char} (h : isBlank c = true) :
    trim (c :: text) = trim text := by
  simp [trim, trimStart, h]

/-- A line of a text as `lines` yields it: it holds no line feed and no carriage return at its
end. -/
def IsLine (line : List Char) : Prop := '\n' ∉ line ∧ line.getLast? ≠ some '\r'

theorem isLine_nil : IsLine [] := by simp [IsLine]

theorem dropReturn_of_isLine {line : List Char} (h : IsLine line) : dropReturn line = line := by
  simp [dropReturn, h.2]

theorem lines_append_cons {line : List Char} (h : IsLine line) (rest : List Char) :
    lines (line ++ '\n' :: rest) = line :: lines rest := by
  have uncut : ∀ c ∈ line, (c == '\n') = false := by
    intro c hc
    have := h.1
    grind
  have split : splitLines (line ++ '\n' :: rest) = line :: splitLines rest :=
    splitAt_append_cons uncut (by simp)
  obtain ⟨next, others, more⟩ := List.exists_cons_of_ne_nil (splitAt_ne_nil (· == '\n') rest)
  rw [lines, split, splitLines, more, lines.finish, dropReturn_of_isLine h, ← more]
  · rfl
  · simp

theorem lines_flatMap_append {block : List (List Char)} (h : ∀ line ∈ block, IsLine line)
    (rest : List Char) :
    lines ((block.flatMap fun line => line ++ ['\n']) ++ rest) = block ++ lines rest := by
  induction block with
  | nil => rfl
  | cons line block ih =>
    have below := ih fun other ho => h other (by simp [ho])
    rw [List.flatMap_cons, List.append_assoc, List.append_assoc, List.singleton_append,
      lines_append_cons (h line (by simp)), below, List.cons_append]

theorem mem_finish {block : List (List Char)} {line : List Char} (h : line ∈ lines.finish block) :
    ∃ piece ∈ block, line ⊆ piece := by
  fun_induction lines.finish block with
  | case1 => simp at h
  | case2 last empty => simp at h
  | case3 last full => exact ⟨last, by simp, by simp_all⟩
  | case4 piece rest more ih =>
    rcases List.mem_cons.mp h with rfl | h
    · refine ⟨piece, by simp, ?_⟩
      simp only [dropReturn]
      split
      · exact List.dropLast_subset piece
      · exact List.Subset.refl _
    · obtain ⟨found, hf, hs⟩ := ih h
      exact ⟨found, by simp [hf], hs⟩

theorem not_mem_of_mem_lines {text line : List Char} (h : line ∈ lines text) : '\n' ∉ line := by
  obtain ⟨piece, hp, hs⟩ := mem_finish h
  intro hc
  have := (mem_splitAt hp).1 '\n' (hs hc)
  simp at this

theorem lines_of_not_mem {text : List Char} (h : '\n' ∉ text) :
    lines text = if text.isEmpty then [] else [text] := by
  have uncut : ∀ c ∈ text, (c == '\n') = false := by
    intro c hc
    grind
  rw [lines, splitLines, splitAt_of_forall uncut, lines.finish]

def IsWord (word : List Char) : Prop := word ≠ [] ∧ ∀ c ∈ word, isBlank c = false

theorem isWord_of_mem_words {text word : List Char} (h : word ∈ words text) : IsWord word := by
  simp only [words, List.mem_filter] at h
  exact ⟨by simpa using h.2, (mem_splitAt h.1).1⟩

@[simp] theorem words_nil : words [] = [] := rfl

theorem words_cons_of_isBlank {c : Char} {text : List Char} (h : isBlank c = true) :
    words (c :: text) = words text := by
  simp [words, splitAt, h]

theorem words_of_isWord {word : List Char} (h : IsWord word) : words word = [word] := by
  simp [words, splitAt_of_forall h.2, h.1]

theorem words_append_cons {word rest : List Char} {c : Char} (h : IsWord word)
    (hc : isBlank c = true) : words (word ++ c :: rest) = word :: words rest := by
  simp [words, splitAt_append_cons h.2 hc, h.1]

theorem words_joinWith {found : List (List Char)} (h : ∀ word ∈ found, IsWord word) :
    words (joinWith [' '] found) = found := by
  induction found with
  | nil => rfl
  | cons word found ih =>
    have here : IsWord word := h word (by simp)
    have below := ih fun other ho => h other (by simp [ho])
    by_cases more : found = []
    · subst more
      exact words_of_isWord here
    · rw [joinWith_cons more, List.append_assoc, List.singleton_append,
        words_append_cons here (by decide), below]

end Phrasebook.Text
