import AnsiDeck.Scrub.Found

/-!
# Short forms in scrubbed texts

When a short form is a whole word of a scrubbed text, said of the text and of the things that stand
in it: a longer form, a key, a token, a password or a value is hidden directly beside an occurrence
that had not been one.
-/

namespace AnsiDeck.Scrub

open Lib

/-- When all kinds of things are hidden in the text, `w` stays in one piece where it stood beside a
word character, and the word characters beside it are hidden. -/
def Freed (u : Unicode) (secrets : List Text) (w text : Text) : Prop :=
  ∃ cs, Left u secrets text cs ∧ FreedIn u cs w text

theorem freed_iff {u : Unicode} (hu : u.Tables) (secrets : List Text) (w text : Text) :
    Freed u secrets w text ↔ FreedIn u (left u secrets text) w text := by
  simp only [Freed, left_iff hu, exists_eq_left]

def IsShort (w : Text) : Prop := w.length < plainSubstringLen

instance (w : Text) : Decidable (IsShort w) := inferInstanceAs (Decidable (_ < _))

theorem short_forms_hidden (u : Unicode) (hu : u.Tables) (secrets : List Text)
    (hsafe : ∀ v ∈ forms u secrets, 91 ∉ v ∧ 93 ∉ v ∧ ¬ v <:+: redacted) (text : Text) :
    (∀ w ∈ forms u secrets, IsShort w → ¬ Stands u w (scrubText u secrets text)) ↔
      ∀ w ∈ forms u secrets, IsShort w → ¬ Freed u secrets w text := by
  refine forall_congr' fun w => forall_congr' fun hw => ?_
  obtain ⟨hopen, hclose, hpart⟩ := hsafe w hw
  rw [stands_iff_freed hw (apart_redacted hopen hclose hpart), freed_iff hu]

theorem scrubText_word :
    scrubText ascii [txt "word", txt "SECRETLONG1"] (txt "wordSECRETLONG1") =
      txt "word[REDACTED]" := by
  decide +kernel

theorem safe_word :
    ∀ v ∈ forms ascii [txt "word", txt "SECRETLONG1"], 91 ∉ v ∧ 93 ∉ v ∧ ¬ v <:+: redacted := by
  decide +kernel

theorem short_forms_hidden_word :
    ¬ ∀ w ∈ forms ascii [txt "word", txt "SECRETLONG1"], IsShort w →
      ¬ Freed ascii [txt "word", txt "SECRETLONG1"] w (txt "wordSECRETLONG1") := by
  rw [← short_forms_hidden ascii tables_ascii _ safe_word]
  intro h
  have hstands := h (txt "word") (by decide +kernel) (by decide)
  rw [scrubText_word] at hstands
  exact hstands ⟨[], txt "[REDACTED]", rfl, by decide⟩

/-- `wordSECRETLONG1` is scrubbed to `word[REDACTED]`. -/
theorem short_form_stands :
    ¬ ∀ (u : Unicode) (secrets : List Text) (text : Text), u.Tables →
      (∀ v ∈ forms u secrets, 91 ∉ v ∧ 93 ∉ v ∧ ¬ v <:+: redacted) →
      ∀ w ∈ forms u secrets, IsShort w → ¬ Stands u w (scrubText u secrets text) := by
  intro h
  have hstands := h ascii _ (txt "wordSECRETLONG1") tables_ascii safe_word (txt "word")
    (by decide +kernel)
    (by decide)
  rw [scrubText_word] at hstands
  exact hstands ⟨[], txt "[REDACTED]", rfl, by decide⟩

end AnsiDeck.Scrub
