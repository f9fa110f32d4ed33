import SchemaGraph.Node
import SchemaGraph.Proofs.MaximalRuns

/-!
# The words of a comment

A comment is made of the words of a text, and its text are these words with single spaces between
them. So white space is normalised: what stands around the words and how much of it does not matter,
and a text that is normalised stays as it is. A text without a word is the exception. Its comment
has no children, so its text is that of the node itself, which is a word.
-/

namespace SchemaGraph

namespace Text

/-- The words of a text are its parts between blanks. -/
theorem parts_iff_words {text : String} {words : List String} :
    Parts isBlank text.toList (words.map String.toList) ↔ words = Text.words text := by
  rw [parts_iff, Text.words]
  constructor
  · intro same
    rw [← same, List.map_map]
    simp
  · rintro rfl
    simp

/-- A text has words exactly if something in it is not blank. -/
theorem words_ne_nil_iff {text : String} :
    words text ≠ [] ↔ ∃ c ∈ text.toList, isBlank c = false := by
  rw [words, ne_eq, List.map_eq_nil_iff]
  exact runs_ne_nil_iff

/-- A text without words is blank throughout. -/
theorem words_eq_nil_iff {text : String} :
    words text = [] ↔ ∀ c ∈ text.toList, isBlank c = true := by
  rw [← not_iff_not, ← ne_eq, words_ne_nil_iff]
  simp

/-- A text without blanks is its only word. -/
theorem words_of_isPart {text : String} (isPart : IsPart isBlank text.toList) :
    words text = [text] := by
  rw [words, runs_of_isPart isPart, List.map_singleton, String.ofList_toList]

/-- Words joined by single spaces, character by character. -/
theorem toList_intercalate_words (text : String) :
    (" ".intercalate (words text)).toList = [' '].intercalate (runs isBlank text.toList) := by
  simp [words, String.toList_intercalate]

/-- The words of a text with single spaces between them are the words of what they make up. -/
theorem words_intercalate_words (text : String) :
    words (" ".intercalate (words text)) = words text := by
  have separator : isBlank ' ' = true := by decide
  rw [words, toList_intercalate_words,
    runs_intercalate separator fun _ listed => isPart_of_mem_runs listed, words]

end Text

namespace Node

open Text

/-- The text of a comment that has words are these with single spaces between them. -/
theorem commentText_comment {text : String} (written : words text ≠ []) :
    (comment text).commentText = " ".intercalate (words text) := by
  have children : ((words text).map token).isEmpty = false := by simpa using written
  have texts : ((words text).map token).map Node.text = words text := by
    rw [List.map_map]
    exact List.map_id _
  rw [commentText, comment, make, if_neg (by simp [children]), texts]

/-- The text that the node of every comment has is a word. -/
theorem isPart_placeholder : IsPart isBlank "comment".toList :=
  ⟨by decide, by simp [isBlank]⟩

/-- A comment without words has no children, and then its text is that of the node. -/
theorem commentText_comment_of_blank {text : String} (blank : words text = []) :
    (comment text).commentText = "comment" := by
  simp [commentText, comment, make, blank]

/-- The words of a text are kept by its comment. -/
theorem words_commentText {text : String} (written : words text ≠ []) :
    words (comment text).commentText = words text := by
  rw [commentText_comment written, words_intercalate_words]

/-- A comment that is made of the text of a comment has the same text. -/
theorem commentText_comment_commentText (text : String) :
    (comment (comment text).commentText).commentText = (comment text).commentText := by
  by_cases blank : words text = []
  · have placeholder := words_of_isPart isPart_placeholder
    have written : words "comment" ≠ [] := by simp [placeholder]
    rw [commentText_comment_of_blank blank, commentText_comment written, placeholder]
    rfl
  · have kept := words_commentText blank
    rw [commentText_comment (kept ▸ blank), kept, commentText_comment blank]

/-- The text of a comment neither begins nor ends with a blank. -/
theorem ends_commentText (text : String) :
    (∀ c ∈ (comment text).commentText.toList.head?, isBlank c = false) ∧
      ∀ c ∈ (comment text).commentText.toList.getLast?, isBlank c = false := by
  by_cases blank : words text = []
  · have inside := isPart_placeholder.2
    rw [commentText_comment_of_blank blank]
    exact ⟨fun c first => inside c (List.mem_of_head? first),
      fun c last => inside c (List.mem_of_getLast? last)⟩
  · rw [commentText_comment blank, toList_intercalate_words]
    exact ends_intercalate fun _ listed => isPart_of_mem_runs listed

/-- The words of a text are its maximal runs of characters that are not blank. If there is one, the
text of the comment consists of the words with single spaces between them, and these are again its
words. A text of blanks alone has none, and its comment falls back to the text of the node. In
either case the text of the comment has no blank at an end and stays as it is when a comment is made
of it. -/
theorem commentText_comment_normal (text : String) :
    (∀ parts : List String,
      Parts isBlank text.toList (parts.map String.toList) ↔ parts = words text) ∧
    ((∃ c ∈ text.toList, isBlank c = false) →
      (comment text).commentText = " ".intercalate (words text) ∧
      words (comment text).commentText = words text) ∧
    ((∀ c ∈ text.toList, isBlank c = true) →
      (comment text).children = [] ∧ (comment text).commentText = (comment text).text) ∧
    (∀ c ∈ (comment text).commentText.toList.head?, isBlank c = false) ∧
    (∀ c ∈ (comment text).commentText.toList.getLast?, isBlank c = false) ∧
    (comment (comment text).commentText).commentText = (comment text).commentText := by
  refine ⟨fun parts => parts_iff_words, fun written => ?_, fun blank => ?_,
    (ends_commentText text).1, (ends_commentText text).2, commentText_comment_commentText text⟩
  · have found := words_ne_nil_iff.mpr written
    exact ⟨commentText_comment found, words_commentText found⟩
  · have absent := words_eq_nil_iff.mpr blank
    exact ⟨by simp [comment, make, absent], commentText_comment_of_blank absent⟩

/-- The text of the node is a word that a text without words has not. -/
theorem commentText_comment_empty :
    words "" = [] ∧ (comment "").commentText = "comment" ∧
      (comment "").commentText ≠ " ".intercalate (words "") := by
  have blank : words "" = [] := by simp [words]
  rw [blank, commentText_comment_of_blank blank]
  decide

end Node

end SchemaGraph
