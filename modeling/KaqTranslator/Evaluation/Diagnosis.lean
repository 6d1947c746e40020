import KaqTranslator.Training.Chain
import Mathlib.Data.List.Flatten

/-!
# The cross-check of a reconstruction (`_diagnose_word_boundary_reconstruction` of `evaluate_checkpoint.py`)

The cross-check compares the reconstructed boundary tokens with the vocabulary of the checkpoint, and with the
number of tokens that the last run of its chain recorded as added.  On a chain over one corpus nothing is
over-reconstructed (`mem_checkpointVocab_of_reconstructed`), and what is left unaccounted for are the
marker-less subword pieces of all runs (`mem_ambiguous_iff`), so that it warns exactly if the runs before the
last have added more of them than the last run has added other tokens (`no_warning_iff`).
-/

namespace KaqTranslator

/-- What is printed to stderr, without its wording -/
inductive Diagnostic where
  | overReconstructed (missing reconstructed : ℕ) (sample : List Str)
  | notChecked (unaccounted : ℕ)
  | underReconstructed (unaccounted new_tokens_added : ℕ) (sample : List Str)
  deriving DecidableEq

/-- The other one is a `NOTE`. -/
def Diagnostic.isWarning : Diagnostic → Bool
  | overReconstructed .. => true
  | notChecked _ => false
  | underReconstructed .. => true

/-- The tokens that could be whole words or subword continuation pieces -/
def ambiguousCheckpointTokens (checkpoint_vocab : List Str) (base_vocab : Vocab) : List Str :=
  checkpoint_vocab.filter fun token =>
    (base_vocab token).isNone && (1 < token.length && !token.startsWith wordBoundaryMarker)

/-- `checkpoint_vocab` lists the tokens of `tokenizer.get_vocab()`. -/
def diagnoseWordBoundaryReconstruction (boundary_tokens checkpoint_vocab : List Str) (base_vocab : Vocab)
    (checkpoint_new_tokens_added : Option ℕ) : List Diagnostic :=
  let over_reconstructed := Str.sortedSet (boundary_tokens.filter fun token => token ∉ checkpoint_vocab)
  let unaccounted := Str.sortedSet
    ((ambiguousCheckpointTokens checkpoint_vocab base_vocab).filter fun token => token ∉ boundary_tokens)
  (if over_reconstructed = [] then []
    else [.overReconstructed over_reconstructed.length (Str.sortedSet boundary_tokens).length
      (over_reconstructed.take 10)]) ++
  if unaccounted = [] then []
  else
    match checkpoint_new_tokens_added with
    | none => [.notChecked unaccounted.length]
    | some new_tokens_added =>
      if new_tokens_added < unaccounted.length then
        [.underReconstructed unaccounted.length new_tokens_added (unaccounted.take 10)]
      else []

/-- A base vocabulary, with the tokens that it lists. -/
structure BaseVocab where
  tokenizer : Tokenizer
  tokens : List Str
  mem_tokens : ∀ token, token ∈ tokens ↔ tokenizer.getVocab token ≠ none

/-! ### The tokens that a run adds -/

namespace LoadedRun

def added (c : LoadedRun) : List Str := (extendTokenizerForExamples c.2.1 c.2.2 c.1).2

/-- The tokens that its whole-word step adds. -/
def wholeWordStep (c : LoadedRun) : List Str := (extendTokenizerVocab c.2.1 (sampleTexts c.1)).2

/-- The tokens that its subword step adds. -/
def pieces (c : LoadedRun) : List Str :=
  if collectTextsForLanguage c.1 .cak = [] then []
  else
    (extendTokenizerVocabWithSubwords (extendTokenizerVocab c.2.1 (sampleTexts c.1)).1 c.2.2
      (collectTextsForLanguage c.1 .cak)).2

/-- The pieces without the marker -/
def continuationPieces (c : LoadedRun) : List Str :=
  c.pieces.filter fun token => !token.startsWith wordBoundaryMarker

/-- Whole words, characters, and pieces with the marker -/
def otherTokens (c : LoadedRun) : List Str :=
  c.wholeWordStep ++ c.pieces.filter fun token => token.startsWith wordBoundaryMarker

private theorem added_eq (c : LoadedRun) : c.added = c.wholeWordStep ++ c.pieces := by
  simp only [added, extendTokenizerForExamples, pieces]
  split
  · exact (List.append_nil _).symm
  · rfl

theorem length_added (c : LoadedRun) : c.added.length = c.otherTokens.length + c.continuationPieces.length := by
  have hsplit :=
    List.length_eq_length_filter_add (l := c.pieces) fun token => token.startsWith wordBoundaryMarker
  rw [added_eq, otherTokens, continuationPieces, List.length_append, List.length_append, hsplit]
  omega

private theorem adds (c : LoadedRun) : Adds c.2.1 c.live c.added := adds_extendTokenizerForExamples ..

private theorem continuationPieces_sublist (c : LoadedRun) : c.continuationPieces.Sublist c.added := by
  rw [added_eq]
  exact List.filter_sublist.trans (List.sublist_append_right ..)

end LoadedRun

/-! ### The vocabulary of a checkpoint -/

section Corpus

variable (pairs : List (Str × Str))

/-- The tokenizer that the last of the runs saves. -/
def checkpointOf : Tokenizer → List CorpusRun → Tokenizer
  | t, [] => t
  | t, r :: rest => checkpointOf (r.load pairs t).live rest

/-- The tokens that `get_vocab()` of the checkpoint lists. -/
def checkpointVocab (base : BaseVocab) (rs : List CorpusRun) : List Str :=
  base.tokens ++ (chainFrom pairs base.tokenizer rs).flatMap LoadedRun.added

/-- What the evaluation of the last checkpoint prints; its card records how many tokens the last run has
added.  -/
def diagnostics (base : BaseVocab) (earlier : List CorpusRun) (last : CorpusRun) : List Diagnostic :=
  diagnoseWordBoundaryReconstruction (reconstructed pairs base.tokenizer)
    (checkpointVocab pairs base (earlier ++ [last]))
    base.tokenizer.getVocab (some (last.load pairs (checkpointOf pairs base.tokenizer earlier)).added.length)

variable {pairs}

theorem chainFrom_concat (t : Tokenizer) (rs : List CorpusRun) (r : CorpusRun) :
    chainFrom pairs t (rs ++ [r]) = chainFrom pairs t rs ++ [r.load pairs (checkpointOf pairs t rs)] := by
  induction rs generalizing t with
  | nil => rfl
  | cons q rs ih =>
    rw [List.cons_append, chainFrom, ih, chainFrom]
    rfl

/-- A chain adds what its runs add. -/
theorem adds_chain (t : Tokenizer) (rs : List CorpusRun) :
    Adds t (checkpointOf pairs t rs) ((chainFrom pairs t rs).flatMap LoadedRun.added) := by
  induction rs generalizing t with
  | nil => exact Adds.refl t
  | cons r rs ih =>
    have hone := (r.load pairs t).adds
    have hfirst : Adds t (r.load pairs t).live (r.load pairs t).added :=
      ⟨hone.nodup, hone.fresh, hone.size, hone.ids, hone.old⟩
    exact hfirst.append (ih (r.load pairs t).live)

theorem mem_checkpointVocab (base : BaseVocab) (rs : List CorpusRun) (token : Str) :
    token ∈ checkpointVocab pairs base rs ↔ (checkpointOf pairs base.tokenizer rs).getVocab token ≠ none := by
  have hadds := @adds_chain pairs base.tokenizer rs
  rw [checkpointVocab, List.mem_append, base.mem_tokens]
  by_cases hmem : token ∈ (chainFrom pairs base.tokenizer rs).flatMap LoadedRun.added
  · obtain ⟨i, hi⟩ := List.getElem?_of_mem hmem
    simp [hmem, hadds.ids i token hi]
  · simp [hmem, hadds.old token hmem]

/-! ### What is unaccounted for -/

private theorem wholeWordStep_getVocab {c : LoadedRun} {token : Str} (h : token ∈ c.pieces) :
    (extendTokenizerVocab c.2.1 (sampleTexts c.1)).1.getVocab token = none := by
  unfold LoadedRun.pieces at h
  split at h
  · cases h
  · exact (adds_extendTokenizerVocabWithSubwords ..).fresh token h

/-- A whole word that a run adds is a reconstructed token. -/
private theorem mem_reconstructed_of_wholeWordStep {base : Tokenizer} {first : CorpusRun}
    {continuations : List CorpusRun} {c : LoadedRun}
    (hc : c ∈ chainFrom pairs base (first :: continuations)) {token : Str}
    (h : token ∈ c.wholeWordStep) (hlen : 1 < token.length) : token ∈ reconstructed pairs base := by
  rw [← wholeWords_of_chain base first continuations]
  refine List.mem_flatMap.2 ⟨c, hc, ?_⟩
  rw [wholeWords_of_unpatched (loaded_of_mem_chainFrom hc).1]
  rw [LoadedRun.wholeWordStep, extendTokenizerVocab_snd] at h
  exact List.mem_filter.2 ⟨h, decide_eq_true hlen⟩

/-- No subword piece of a chain is a reconstructed token. -/
private theorem not_mem_reconstructed_of_piece {base t : Tokenizer} {rs : List CorpusRun} {c : LoadedRun}
    (hc : c ∈ chainFrom pairs t rs) {token : Str} (h : token ∈ c.pieces) :
    token ∉ reconstructed pairs base := by
  intro hmem
  obtain ⟨-, -, r, t', rfl⟩ := loaded_of_mem_chainFrom hc
  have hneeds := (mem_computeNewTokensForTexts.1 (List.mem_filter.1 hmem).1).1
  have hneeds : Needs (sampleTexts (r.load pairs t').1) token :=
    (Needs.congr (mem_sampleTexts r t') token).2 hneeds
  exact getVocab_of_needs hneeds (wholeWordStep_getVocab h)

private theorem length_of_mem_continuationPieces {c : LoadedRun} {token : Str}
    (h : token ∈ c.continuationPieces) :
    1 < token.length ∧ token.startsWith wordBoundaryMarker = false := by
  obtain ⟨hpiece, hmarker⟩ := List.mem_filter.1 h
  have hmarker : token.startsWith wordBoundaryMarker = false := by simpa using hmarker
  refine ⟨?_, hmarker⟩
  unfold LoadedRun.pieces at hpiece
  split at hpiece
  · cases hpiece
  · rw [extendTokenizerVocabWithSubwords_snd] at hpiece
    have hvalue := (List.mem_filter.1 (mem_selectNewTokens.1 hpiece).1).2
    -- a piece without the marker is measured as it is
    rw [Str.removePrefix, hmarker, if_neg (by simp)] at hvalue
    exact of_decide_eq_true hvalue

/-- What the reconstruction leaves unaccounted for: the marker-less subword pieces of the chain. -/
theorem mem_ambiguous_iff (base : BaseVocab) (first : CorpusRun) (continuations : List CorpusRun)
    (token : Str) :
    token ∈ ambiguousCheckpointTokens (checkpointVocab pairs base (first :: continuations))
      base.tokenizer.getVocab ∧
        token ∉ reconstructed pairs base.tokenizer ↔
      token ∈ (chainFrom pairs base.tokenizer (first :: continuations)).flatMap
        LoadedRun.continuationPieces := by
  simp only [ambiguousCheckpointTokens, List.mem_filter, Bool.and_eq_true, decide_eq_true_eq,
    Option.isNone_iff_eq_none, Bool.not_eq_true', List.mem_flatMap]
  constructor
  · -- a token that the base vocabulary lacks was added by a run, as a whole word or as a piece
    rintro ⟨⟨hmem, hbase, hlen, hmarker⟩, hnot⟩
    have hadded := (List.mem_append.1 hmem).resolve_left fun h => (base.mem_tokens token).1 h hbase
    obtain ⟨c, hc, hadded⟩ := List.mem_flatMap.1 hadded
    rw [c.added_eq] at hadded
    have hpiece : token ∈ c.pieces := by
      refine (List.mem_append.1 hadded).resolve_left fun hword => ?_
      exact hnot (mem_reconstructed_of_wholeWordStep hc hword hlen)
    exact ⟨c, hc, List.mem_filter.2 ⟨hpiece, by simp [hmarker]⟩⟩
  · rintro ⟨c, hc, hmem⟩
    obtain ⟨hlen, hmarker⟩ := length_of_mem_continuationPieces hmem
    have hadded : token ∈ (chainFrom pairs base.tokenizer (first :: continuations)).flatMap LoadedRun.added :=
      List.mem_flatMap.2 ⟨c, hc, c.continuationPieces_sublist.subset hmem⟩
    have hbase := (adds_chain base.tokenizer (first :: continuations)).fresh token hadded
    exact ⟨⟨List.mem_append_right _ hadded, hbase, hlen, hmarker⟩,
      not_mem_reconstructed_of_piece hc (List.mem_filter.1 hmem).1⟩

/-- Nothing is over-reconstructed. -/
theorem mem_checkpointVocab_of_reconstructed (base : BaseVocab) (first : CorpusRun)
    (continuations : List CorpusRun) {token : Str} (h : token ∈ reconstructed pairs base.tokenizer) :
    token ∈ checkpointVocab pairs base (first :: continuations) := by
  rw [← wholeWords_of_chain base.tokenizer first continuations] at h
  obtain ⟨c, hc, hword⟩ := List.mem_flatMap.1 h
  rw [wholeWords_of_unpatched (loaded_of_mem_chainFrom hc).1] at hword
  have hadded : token ∈ c.added := mem_added_of_wholeWord hword
  obtain ⟨i, hi⟩ := List.getElem?_of_mem (List.mem_flatMap.2 ⟨c, hc, hadded⟩)
  rw [mem_checkpointVocab, (adds_chain base.tokenizer (first :: continuations)).ids i token hi]
  exact Option.some_ne_none _

private theorem nodup_continuationPieces (t : Tokenizer) (rs : List CorpusRun) :
    ((chainFrom pairs t rs).flatMap LoadedRun.continuationPieces).Nodup :=
  (adds_chain t rs).nodup.sublist (List.Sublist.flatMap_right _ fun c _ => c.continuationPieces_sublist)

private theorem length_unaccounted (base : BaseVocab) (first : CorpusRun) (continuations : List CorpusRun) :
    (Str.sortedSet ((ambiguousCheckpointTokens (checkpointVocab pairs base (first :: continuations))
        base.tokenizer.getVocab).filter fun token => token ∉ reconstructed pairs base.tokenizer)).length =
      ((chainFrom pairs base.tokenizer (first :: continuations)).flatMap
        LoadedRun.continuationPieces).length := by
  refine List.Perm.length_eq ((List.perm_ext_iff_of_nodup (Str.nodup_sortedSet _)
    (nodup_continuationPieces ..)).2 fun token => ?_)
  rw [Str.mem_sortedSet, List.mem_filter, decide_eq_true_eq]
  exact mem_ambiguous_iff base first continuations token

end Corpus

/-- The evaluation of the last checkpoint of a chain prints no `WARNING` exactly if the runs before the last
have added no more marker-less subword pieces than the last has added other tokens. -/
theorem no_warning_iff (pairs : List (Str × Str)) (base : BaseVocab) (earlier : List CorpusRun)
    (last : CorpusRun) :
    (∀ d ∈ diagnostics pairs base earlier last, d.isWarning = false) ↔
      ((chainFrom pairs base.tokenizer earlier).flatMap LoadedRun.continuationPieces).length ≤
        (last.load pairs (checkpointOf pairs base.tokenizer earlier)).otherTokens.length := by
  have hne : earlier ++ [last] ≠ [] := List.append_ne_nil_of_right_ne_nil earlier (List.cons_ne_nil last [])
  obtain ⟨first, continuations, hchain⟩ := List.exists_cons_of_ne_nil hne
  -- nothing is over-reconstructed, so the first `WARNING` is not printed
  have hover : (reconstructed pairs base.tokenizer).filter
      (fun token => token ∉ checkpointVocab pairs base (first :: continuations)) = [] := by
    refine List.filter_eq_nil_iff.2 fun token hmem => ?_
    simpa using mem_checkpointVocab_of_reconstructed base first continuations hmem
  have hlen := @length_unaccounted pairs base first continuations
  rw [← hchain, chainFrom_concat, List.flatMap_append, List.length_append, List.flatMap_singleton,
    hchain] at hlen
  -- the last run's own pieces are on both sides of the comparison
  have hadded := (last.load pairs (checkpointOf pairs base.tokenizer earlier)).length_added
  have hsorted : Str.sortedSet [] = [] := rfl
  rw [diagnostics, hchain, diagnoseWordBoundaryReconstruction, hover, hsorted]
  simp only [if_true, List.nil_append]
  split
  · rename_i hnil
    rw [hnil, List.length_nil] at hlen
    simp only [List.not_mem_nil, IsEmpty.forall_iff, implies_true, true_iff]
    omega
  · split
    · simp only [List.mem_singleton, forall_eq, Diagnostic.isWarning]
      refine iff_of_false nofun ?_
      omega
    · refine iff_of_true (fun d hd => absurd hd List.not_mem_nil) ?_
      omega

/-- A chain whose first run adds a piece, and whose second run adds nothing. -/
def wkrRun : CorpusRun := ⟨.both, fun _ => ["wkr".toList]⟩

def idleRun : CorpusRun := ⟨.both, fun _ => []⟩

def emptyVocab : BaseVocab := ⟨.load [], [], fun _ => iff_of_false List.not_mem_nil fun h => h rfl⟩

/-- No whole word of the chain is missing from the reconstruction, and the evaluation warns that some are. -/
theorem warned_without_cause :
    diagnostics [("ri".toList, "zq".toList)] emptyVocab [wkrRun] idleRun =
        [.underReconstructed 1 0 ["wkr".toList]] ∧
      (chainFrom [("ri".toList, "zq".toList)] emptyVocab.tokenizer [wkrRun, idleRun]).flatMap
        LoadedRun.wholeWords =
        reconstructed [("ri".toList, "zq".toList)] emptyVocab.tokenizer ∧
      ¬ ∀ pairs base earlier last, ∀ d ∈ diagnostics pairs base earlier last, d.isWarning = false := by
  have hprinted : diagnostics [("ri".toList, "zq".toList)] emptyVocab [wkrRun] idleRun =
      [.underReconstructed 1 0 ["wkr".toList]] := by
    decide +kernel
  refine ⟨hprinted, wholeWords_of_chain _ _ _, fun h => ?_⟩
  have hwarning := h [("ri".toList, "zq".toList)] emptyVocab [wkrRun] idleRun
  rw [hprinted] at hwarning
  cases hwarning _ (List.mem_singleton_self _)

end KaqTranslator
