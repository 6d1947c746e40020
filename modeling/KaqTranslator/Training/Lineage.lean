import KaqTranslator.Training.Reconstruction

/-!
# One checkpoint, three decoders (`run_training_job` of `train.py`, `deployment/inference.py`)

A lineage is a first training run and its continuations on the same corpus, each of which loads the tokenizer
that the one before has saved; the last checkpoint is served.  A run decodes with the tokenizer that it has
extended, which has the boundary tokens of that run alone, and serving decodes with a reloaded tokenizer,
which has none.

`one_decoding_iff` says that the decoders agree exactly on the lineages in which no run registers a boundary
token.  Every lineage whose base vocabulary lacks the Kaqchikel tag registers one (`tag_mem_registered`).
-/

namespace KaqTranslator

open Runs

/-- A training run: the tokenizer that it loads, and its SentencePiece training. -/
abbrev TrainingRun := Tokenizer × (List Str → List Str)

structure Lineage where
  base : Tokenizer
  examples : List TranslationExample
  first : List Str → List Str
  continuations : List (List Str → List Str)

/-- The texts that the whole-word step of a run looks at. -/
def sampleTexts (examples : List TranslationExample) : List Str :=
  collectTextsForLanguage examples .cak ++ allDirectionTagTokens

def wholeWordsOfRun (examples : List TranslationExample) (run : TrainingRun) : List Str :=
  reconstructWholeWordBoundaryTokens run.1.getVocab (sampleTexts examples)

def markedPiecesOfRun (examples : List TranslationExample) (run : TrainingRun) : List Str :=
  if collectTextsForLanguage examples .cak = [] then []
  else addedMarkedPieces run.1 (sampleTexts examples) run.2 (collectTextsForLanguage examples .cak)

def liveOfRun (examples : List TranslationExample) (run : TrainingRun) : Tokenizer :=
  (extendTokenizerForExamples run.1 run.2 examples).1

/-- The runs from the checkpoint `t` on. -/
def runsFrom (examples : List TranslationExample) : Tokenizer → List (List Str → List Str) → List TrainingRun
  | _, [] => []
  | t, train :: rest => (t.reload, train) :: runsFrom examples (liveOfRun examples (t.reload, train)) rest

/-- What `generate` can give back, special tokens skipped: the forced tag is a special token only for
Spanish. -/
def Generated (t : Tokenizer) (tokens : List Str) (target_lang : Language) : Prop :=
  (∀ token ∈ tokens, t.getVocab token ≠ none) ∧
    (target_lang = .cak → ∃ rest, tokens = directionTag .cak :: rest)

/-- The decoded text of a generated token list, in `generate_translations` and in `translate`. -/
def generatedText (sp : SentencePiece) (t : Tokenizer) (tokens : List Str) (target_lang : Language) : Str :=
  stripLeadingDirectionTag (t.convertTokensToString sp tokens) target_lang

/-- The token is preceded by a space, or starts the text. -/
def Spaced (sp : SentencePiece) (t : Tokenizer) (token : Str) : Prop :=
  ∀ before after, ∃ rest, t.convertTokensToString sp (before ++ token :: after) =
    (if t.convertTokensToString sp before = [] then [] else t.convertTokensToString sp before ++ [' ']) ++
      token ++ rest

namespace Lineage

def runs (L : Lineage) : List TrainingRun := runsFrom L.examples L.base (L.first :: L.continuations)

/-- The tokenizer that `model_fn` loads. -/
def served (L : Lineage) : Tokenizer := ((L.runs.map (liveOfRun L.examples)).getLastD L.base).reload

def wholeWords (L : Lineage) : List Str := L.runs.flatMap (wholeWordsOfRun L.examples)

def registered (L : Lineage) : List Str :=
  L.runs.flatMap fun run => wholeWordsOfRun L.examples run ++ markedPiecesOfRun L.examples run

/-- Every run decodes what it can generate as serving does, and whole words are spaced everywhere. -/
structure OneDecoding (L : Lineage) (sp : SentencePiece) : Prop where
  same : ∀ run ∈ L.runs, ∀ tokens target_lang, Generated (liveOfRun L.examples run) tokens target_lang →
    generatedText sp (liveOfRun L.examples run) tokens target_lang =
      generatedText sp L.served tokens target_lang
  spaced : ∀ w ∈ L.wholeWords, (∀ run ∈ L.runs, Spaced sp (liveOfRun L.examples run) w) ∧ Spaced sp L.served w

end Lineage

/-! ### The runs of a lineage -/

/-- Every run of a lineage loads an unpatched tokenizer, with at least the base vocabulary. -/
theorem loaded_of_mem_runsFrom {examples : List TranslationExample} {trains : List (List Str → List Str)}
    {t : Tokenizer} {run : TrainingRun} (h : run ∈ runsFrom examples t trains) :
    run.1.boundaryTokens = none ∧ ∀ token, run.1.getVocab token = none → t.getVocab token = none := by
  induction trains generalizing t with
  | nil => cases h
  | cons train rest ih =>
    rcases List.mem_cons.1 h with rfl | h
    · exact ⟨rfl, fun _ h => h⟩
    · obtain ⟨hnone, hvocab⟩ := ih h
      exact ⟨hnone, fun token htoken =>
        ((adds_extendTokenizerForExamples t.reload train examples).getVocab_eq_none (hvocab token htoken)).1⟩

theorem boundaryTokens_liveOfRun (examples : List TranslationExample) {run : TrainingRun}
    (h : run.1.boundaryTokens = none) :
    (liveOfRun examples run).boundaryTokens.getD [] =
      wholeWordsOfRun examples run ++ markedPiecesOfRun examples run := by
  simp only [liveOfRun, extendTokenizerForExamples, markedPiecesOfRun]
  split
  · rw [List.append_nil]
    refine Eq.trans (congrArg (Option.getD · []) (boundaryTokens_extendTokenizerVocab ..)) ?_
    rw [Tokenizer.boundaryTokens_mark_getD, h]
    rfl
  · exact boundaryTokens_liveTokenizer (sampleTexts examples) run.2 _ h

private theorem boundaryTokens_liveOfRun_eq_none (examples : List TranslationExample) {run : TrainingRun}
    (h : run.1.boundaryTokens = none) (hwords : wholeWordsOfRun examples run = [])
    (hpieces : markedPiecesOfRun examples run = []) : (liveOfRun examples run).boundaryTokens = none := by
  have hwhole : (extendTokenizerVocab run.1 (sampleTexts examples)).1.boundaryTokens = none := by
    rw [boundaryTokens_extendTokenizerVocab, Tokenizer.boundaryTokens_mark]
    exact (if_pos hwords).trans h
  simp only [liveOfRun, extendTokenizerForExamples]
  simp only [markedPiecesOfRun] at hpieces
  split
  · exact hwhole
  · rename_i hne
    rw [if_neg hne] at hpieces
    rw [boundaryTokens_extendTokenizerVocabWithSubwords, Tokenizer.boundaryTokens_mark]
    exact (if_pos hpieces).trans hwhole

theorem mem_added_of_wholeWord {examples : List TranslationExample} {run : TrainingRun} {token : Str}
    (h : token ∈ wholeWordsOfRun examples run) :
    token ∈ (extendTokenizerForExamples run.1 run.2 examples).2 := by
  have hadded : token ∈ (extendTokenizerVocab run.1 (sampleTexts examples)).2 := by
    rw [extendTokenizerVocab_snd]
    exact (List.mem_filter.1 h).1
  simp only [extendTokenizerForExamples]
  split
  · exact hadded
  · exact List.mem_append_left _ hadded

theorem mem_added_of_markedPiece {examples : List TranslationExample} {run : TrainingRun} {token : Str}
    (h : token ∈ markedPiecesOfRun examples run) :
    token ∈ (extendTokenizerForExamples run.1 run.2 examples).2 ∧
      token.startsWith wordBoundaryMarker = true := by
  simp only [markedPiecesOfRun] at h
  split at h
  · cases h
  · rename_i hne
    obtain ⟨hpiece, hmarked⟩ := List.mem_filter.1 h
    simp only [extendTokenizerForExamples, if_neg hne]
    exact ⟨List.mem_append_right _ hpiece, hmarked⟩

/-- A registered token is new to the tokenizer that the run loads, and the run can generate it; one without
the marker is a word. -/
theorem registered_of_run {examples : List TranslationExample} {run : TrainingRun} {token : Str}
    (h : token ∈ wholeWordsOfRun examples run ++ markedPiecesOfRun examples run) :
    run.1.getVocab token = none ∧ (liveOfRun examples run).getVocab token ≠ none ∧
      (token.startsWith wordBoundaryMarker = false → token ≠ [] ∧ ∀ c ∈ token, isspace c = false) := by
  have hadded : token ∈ (extendTokenizerForExamples run.1 run.2 examples).2 := by
    rcases List.mem_append.1 h with hword | hpiece
    · exact mem_added_of_wholeWord hword
    · exact (mem_added_of_markedPiece hpiece).1
  have hadds := adds_extendTokenizerForExamples run.1 run.2 examples
  refine ⟨hadds.fresh token hadded, ?_, fun hnot => ?_⟩
  · obtain ⟨i, hi⟩ := List.getElem?_of_mem hadded
    rw [liveOfRun, hadds.ids i token hi]
    exact Option.some_ne_none _
  · rcases List.mem_append.1 h with hword | hpiece
    · exact not_space_of_mem_computeNewTokensForTexts (List.mem_filter.1 hword).1
    · have hmarked := (mem_added_of_markedPiece hpiece).2
      rw [hnot] at hmarked
      cases hmarked

theorem tag_mem_wholeWordsOfRun {examples : List TranslationExample} {run : TrainingRun}
    {lang : Language} (h : run.1.getVocab (directionTag lang) = none) :
    directionTag lang ∈ wholeWordsOfRun examples run := by
  have hlen : 1 < (directionTag lang).length := by cases lang <;> decide
  have hsplit : directionTag lang ∈ Str.split (directionTag lang) := by cases lang <;> decide
  have htext : directionTag lang ∈ sampleTexts examples :=
    List.mem_append_right _ (by cases lang <;> decide)
  have hmissing : directionTag lang ∈ findMissingWords (sampleTexts examples) run.1.getVocab :=
    List.mem_filter.2 ⟨List.mem_flatMap.2 ⟨_, htext, hsplit⟩, by rw [h]; rfl⟩
  exact List.mem_filter.2 ⟨mem_selectNewTokens.2 ⟨List.mem_append_right _ hmissing, h⟩, decide_eq_true hlen⟩

theorem getVocab_tag_liveOfRun (examples : List TranslationExample) (run : TrainingRun) (lang : Language) :
    (liveOfRun examples run).getVocab (directionTag lang) ≠ none := by
  intro hlive
  have hloaded := ((adds_extendTokenizerForExamples run.1 run.2 examples).getVocab_eq_none hlive).1
  exact (registered_of_run (List.mem_append_left _ (tag_mem_wholeWordsOfRun hloaded))).2.1 hlive

theorem tag_mem_registered {L : Lineage} (h : L.base.getVocab (directionTag .cak) = none) :
    directionTag .cak ∈ L.registered :=
  List.mem_flatMap.2 ⟨(L.base.reload, L.first), List.mem_cons_self ..,
    List.mem_append_left _ (tag_mem_wholeWordsOfRun h)⟩

/-! ### Generated texts -/

theorem markers_stripLeadingDirectionTag (text : Str) (lang : Language) :
    markers (stripLeadingDirectionTag text lang) = markers text := by
  unfold stripLeadingDirectionTag
  split
  · rename_i h
    obtain ⟨rest, rfl⟩ := List.isPrefixOf_iff_prefix.1 h
    obtain ⟨l, hl, hrest⟩ := Str.lstrip_eq rest
    have htag : markers (directionTag lang) = 0 := by cases lang <;> decide
    rw [List.drop_left, markers_append, htag, Nat.zero_add]
    conv_rhs => rw [hrest]
    rw [markers_append, markers_of_blank hl, Nat.zero_add]
  · rfl

private theorem weight_tag (sp : SentencePiece) (boundary_tokens : List Str) :
    sp.weight boundary_tokens (directionTag .cak) = 0 := by
  have hremove : (directionTag .cak).removePrefix wordBoundaryMarker = directionTag .cak := by decide
  rw [SentencePiece.weight, hremove, ite_self]
  exact Nat.le_zero.1 (markers_surface_le sp.native (directionTag .cak))

theorem stripLeadingDirectionTag_append (lang : Language) (rest : Str) :
    stripLeadingDirectionTag (directionTag lang ++ rest) lang = rest.lstrip := by
  rw [stripLeadingDirectionTag, if_pos, List.drop_left]
  exact List.isPrefixOf_iff_prefix.2 (List.prefix_append ..)

private theorem SentencePiece.convert_of_not_space (sp : SentencePiece) {tokens : List Str}
    (hsurface : ∀ token ∈ tokens, surface sp.native token = token)
    (hspace : ∀ token ∈ tokens, ∀ c ∈ token, isspace c = false) : sp.convert tokens = tokens.flatten := by
  obtain ⟨l, r, hl, hr, hs⟩ := sp.convert_spec tokens
  have hflat : tokens.flatMap (surface sp.native) = tokens.flatten := by
    rw [List.flatMap_def, List.map_congr_left hsurface, List.map_id']
  have hnil : ∀ s : Str, s.Blank → (∀ c ∈ s, c ∈ tokens.flatten) → s = [] := by
    intro s hblank hsub
    refine List.eq_nil_iff_forall_not_mem.2 fun c hc => ?_
    obtain ⟨token, htoken, hct⟩ := List.mem_flatten.1 (hsub c hc)
    exact absurd (hblank c hc) (by simp [hspace token htoken c hct])
  rw [hflat] at hs
  have hl' : l = [] := hnil l hl fun c hc => hs ▸ List.mem_append_left _ (List.mem_append_left _ hc)
  have hr' : r = [] := hnil r hr fun c hc => hs ▸ List.mem_append_right _ hc
  rw [hs, hl', hr', List.nil_append, List.append_nil]

private theorem surface_of_not_mem (native : Str → Bool) {token : Str} (h : markerChar ∉ token) :
    surface native token = token := by
  unfold surface
  split
  · refine (List.map_congr_left fun c hc => ?_).trans (List.map_id _)
    rw [if_neg fun e : c = markerChar => h (e ▸ hc)]
    rfl
  · rfl

private theorem unmarkHead_of_not_marked (boundary_tokens : List Str) {token : Str} (rest : List Str)
    (h : token.startsWith wordBoundaryMarker = false) :
    unmarkHead boundary_tokens (token :: rest) = token :: rest := by
  rw [unmarkHead]
  split
  · rw [Str.removePrefix, if_neg (by simp [h])]
  · rfl

private theorem directionTag_not_space (lang : Language) : ∀ c ∈ directionTag lang, isspace c = false := by
  have hall : (directionTag lang).all (fun c => !isspace c) = true := by cases lang <;> decide
  simpa using hall

section Words

variable {sp : SentencePiece} {w : Str}

private theorem convert_tag_words (hsurface : surface sp.native w = w) (hspace : ∀ c ∈ w, isspace c = false) :
    sp.convert [directionTag .cak, w, w] = directionTag .cak ++ (w ++ w) := by
  rw [sp.convert_of_not_space]
  · simp
  · simp [hsurface, surface_of_not_mem sp.native (show markerChar ∉ directionTag .cak by decide)]
  · simpa using ⟨directionTag_not_space .cak, hspace⟩

private theorem convertWithWordBoundaries_tag_words {boundary_tokens : List Str}
    (hsurface : surface sp.native w = w)
    (hspace : ∀ c ∈ w, isspace c = false) (hne : w ≠ []) (hmarked : w.startsWith wordBoundaryMarker = false)
    (hmem : w ∈ boundary_tokens) :
    convertWithWordBoundaries sp boundary_tokens [directionTag .cak, w, w] =
      directionTag .cak ++ (' ' :: (w ++ ' ' :: w)) := by
  have hcut : cut (fun t => t ∈ boundary_tokens || t.startsWith wordBoundaryMarker) [directionTag .cak, w, w] =
      [[directionTag .cak], [w], [w]] := by
    simp [cut, Runs.step, hmem]
  have hword : sp.convert (unmarkHead boundary_tokens [w]) = w := by
    rw [unmarkHead_of_not_marked _ _ hmarked, sp.convert_of_not_space (by simpa) (by simpa)]
    exact List.flatten_singleton
  have htag : sp.convert (unmarkHead boundary_tokens [directionTag .cak]) = directionTag .cak := by
    rw [unmarkHead_of_not_marked _ _ (by decide), sp.convert_of_not_space]
    · simp
    · simp [surface_of_not_mem sp.native (show markerChar ∉ directionTag .cak by decide)]
    · simpa using directionTag_not_space .cak
  have hjoin : (([directionTag .cak, w, w].filter fun part => !part.isEmpty)) = [directionTag .cak, w, w] := by
    have : (directionTag .cak).isEmpty = false := by decide
    simp [hne, this]
  simp only [convertWithWordBoundaries, hcut, List.map_cons, List.map_nil, hword, htag, hjoin]
  have htext : Str.join [' '] [directionTag .cak, w, w] = directionTag .cak ++ (' ' :: (w ++ ' ' :: w)) := by
    simp [Str.join, List.intercalate]
  rw [htext, Str.strip_of_not_space]
  · intro c hc
    have : some '_' = some c := hc
    cases this
    decide
  · intro c hc
    have hsplit : directionTag .cak ++ (' ' :: (w ++ ' ' :: w)) =
        directionTag .cak ++ ' ' :: (w ++ [' ']) ++ w := by
      simp
    rw [hsplit, List.getLast?_append_of_ne_nil _ hne] at hc
    exact hspace c (List.mem_of_getLast? hc)

end Words

/-! ### One decoding -/

section Registered

variable {examples : List TranslationExample} {run : TrainingRun} {sp : SentencePiece} {served : Tokenizer}
  {w : Str}

private theorem generated_of_registered
    (hw : w ∈ wholeWordsOfRun examples run ++ markedPiecesOfRun examples run) (rest : List Str)
    (hrest : ∀ token ∈ rest, token = w) :
    Generated (liveOfRun examples run) (directionTag .cak :: rest) .cak := by
  refine ⟨fun token hmem => ?_, fun _ => ⟨rest, rfl⟩⟩
  rcases List.mem_cons.1 hmem with rfl | hmem
  · exact getVocab_tag_liveOfRun examples run .cak
  · rw [hrest token hmem]
    exact (registered_of_run hw).2.1

/-- Serving leaves one marker more in the text than the run does. -/
private theorem generatedText_marked_ne (hloaded : run.1.boundaryTokens = none)
    (hserved : served.boundaryTokens = none)
    (hnative : sp.native w = false) (hmarked : w.startsWith wordBoundaryMarker = true)
    (hw : w ∈ wholeWordsOfRun examples run ++ markedPiecesOfRun examples run) :
    generatedText sp (liveOfRun examples run) [directionTag .cak, w] .cak ≠
      generatedText sp served [directionTag .cak, w] .cak := by
  intro heq
  have hboundary := boundaryTokens_liveOfRun examples hloaded
  have hmarkers := congrArg markers heq
  simp only [generatedText, markers_stripLeadingDirectionTag, Tokenizer.markers_convertTokensToString,
    List.map_cons, List.map_nil, List.sum_cons, List.sum_nil, weight_tag, hboundary, hserved,
    Option.getD_none] at hmarkers
  have hlt := weight_lt_of_marked hnative hmarked hw (List.not_mem_nil (a := w))
  omega

/-- Serving glues two words that the run spaces. -/
private theorem generatedText_unmarked_ne (hloaded : run.1.boundaryTokens = none)
    (hserved : served.boundaryTokens = none) (hnative : sp.native w = false)
    (hmarked : w.startsWith wordBoundaryMarker = false)
    (hw : w ∈ wholeWordsOfRun examples run ++ markedPiecesOfRun examples run) :
    generatedText sp (liveOfRun examples run) [directionTag .cak, w, w] .cak ≠
      generatedText sp served [directionTag .cak, w, w] .cak := by
  obtain ⟨hne, hspace⟩ := (registered_of_run hw).2.2 hmarked
  have hboundary := boundaryTokens_liveOfRun examples hloaded
  have hsurface : surface sp.native w = w := by simp [surface, hnative]
  have hfirst : ∀ rest : Str, Str.lstrip (w ++ rest) = w ++ rest := by
    intro rest
    apply Str.lstrip_of_not_space
    intro c hc
    rw [List.head?_append_of_ne_nil _ hne] at hc
    exact hspace c (List.mem_of_mem_head? hc)
  have hspaced : generatedText sp (liveOfRun examples run) [directionTag .cak, w, w] .cak = w ++ ' ' :: w := by
    cases hb : (liveOfRun examples run).boundaryTokens with
    | none =>
      rw [hb] at hboundary
      rw [← hboundary] at hw
      cases hw
    | some b =>
      rw [hb, Option.getD_some] at hboundary
      rw [← hboundary] at hw
      simp only [generatedText, Tokenizer.convertTokensToString, hb]
      rw [convertWithWordBoundaries_tag_words hsurface hspace hne hmarked hw, stripLeadingDirectionTag_append]
      exact hfirst (' ' :: w)
  have hglued : generatedText sp served [directionTag .cak, w, w] .cak = w ++ w := by
    simp only [generatedText, Tokenizer.convertTokensToString, hserved]
    rw [convert_tag_words hsurface hspace, stripLeadingDirectionTag_append, hfirst]
  intro heq
  have hlength := congrArg List.length ((hspaced.symm.trans heq).trans hglued)
  simp only [List.length_append, List.length_cons] at hlength
  omega

/-- A run that registers a boundary token decodes some list that it can generate differently from serving. -/
theorem generatedText_ne (hloaded : run.1.boundaryTokens = none) (hserved : served.boundaryTokens = none)
    (hnative : sp.native w = false)
    (hw : w ∈ wholeWordsOfRun examples run ++ markedPiecesOfRun examples run) :
    ∃ tokens, Generated (liveOfRun examples run) tokens .cak ∧
      generatedText sp (liveOfRun examples run) tokens .cak ≠ generatedText sp served tokens .cak := by
  cases hmarked : w.startsWith wordBoundaryMarker with
  | true =>
    have hgenerated := generated_of_registered hw [w] (by simp)
    exact ⟨_, hgenerated, generatedText_marked_ne hloaded hserved hnative hmarked hw⟩
  | false =>
    have hgenerated := generated_of_registered hw [w, w] (by simp)
    exact ⟨_, hgenerated, generatedText_unmarked_ne hloaded hserved hnative hmarked hw⟩

end Registered

/-- All decoders of a lineage agree if and only if none of its runs registers a boundary token. -/
theorem one_decoding_iff {L : Lineage} {sp : SentencePiece}
    (hnative : ∀ token, sp.native token = true → L.base.getVocab token ≠ none) :
    L.OneDecoding sp ↔ L.registered = [] := by
  constructor
  · intro hone
    by_contra hregistered
    obtain ⟨w, hw⟩ := List.exists_mem_of_ne_nil _ hregistered
    obtain ⟨run, hrun, hw⟩ := List.mem_flatMap.1 hw
    obtain ⟨hloaded, hvocab⟩ := loaded_of_mem_runsFrom hrun
    have hnew : L.base.getVocab w = none := hvocab w (registered_of_run hw).1
    have hserved : L.served.boundaryTokens = none := rfl
    obtain ⟨tokens, hgenerated, hne⟩ :=
      generatedText_ne hloaded hserved (Bool.eq_false_iff.2 fun h => hnative w h hnew) hw
    exact hne (hone.same run hrun tokens .cak hgenerated)
  · intro hnil
    have hrun : ∀ run ∈ L.runs, wholeWordsOfRun L.examples run = [] ∧ markedPiecesOfRun L.examples run = [] :=
      fun run hrun => List.append_eq_nil_iff.1 (List.flatMap_eq_nil_iff.1 hnil run hrun)
    refine ⟨fun run hmem tokens target_lang _ => ?_, fun w hw => ?_⟩
    · obtain ⟨hwords, hpieces⟩ := hrun run hmem
      have hloaded := (loaded_of_mem_runsFrom hmem).1
      have hnone := boundaryTokens_liveOfRun_eq_none L.examples hloaded hwords hpieces
      have hserved : L.served.boundaryTokens = none := rfl
      simp only [generatedText, Tokenizer.convertTokensToString, hnone, hserved]
    · obtain ⟨run, hmem, hw⟩ := List.mem_flatMap.1 hw
      rw [(hrun run hmem).1] at hw
      cases hw

/-! ### A glued word -/

/-- A lineage of two runs: the corpus has one new word, and SentencePiece finds no piece in it. -/
def zqLineage : Lineage where
  base := .load ["▁ri".toList, directionTag .es]
  examples := [⟨"ri".toList, "zq".toList, .es, .cak⟩]
  first := fun _ => []
  continuations := [fun _ => []]

/-- The first run spaces the word; the continuation run and the endpoint glue it to the word before. -/
theorem continuation_and_serving_glue :
    zqLineage.runs.map (fun run => generatedText riDecoder (liveOfRun zqLineage.examples run)
        [directionTag .cak, "▁ri".toList, "zq".toList] .cak) = ["ri zq".toList, "rizq".toList] ∧
      generatedText riDecoder zqLineage.served [directionTag .cak, "▁ri".toList, "zq".toList] .cak =
        "rizq".toList ∧
      ¬ zqLineage.OneDecoding riDecoder := by
  refine ⟨by decide +kernel, by decide +kernel, fun hone => ?_⟩
  have hgenerated : Generated (liveOfRun zqLineage.examples (zqLineage.base.reload, zqLineage.first))
      [directionTag .cak, "▁ri".toList, "zq".toList] .cak := ⟨by decide +kernel, fun _ => ⟨_, rfl⟩⟩
  exact absurd (hone.same _ (List.mem_cons_self ..) _ _ hgenerated) (by decide +kernel)

theorem zqLineage_not_oneDecoding : ¬ zqLineage.OneDecoding riDecoder := by
  have hnative : ∀ token, riDecoder.native token = true → zqLineage.base.getVocab token ≠ none := by
    intro token h
    rw [of_decide_eq_true h]
    decide
  rw [one_decoding_iff hnative]
  exact List.ne_nil_of_mem (tag_mem_registered rfl)

end KaqTranslator
