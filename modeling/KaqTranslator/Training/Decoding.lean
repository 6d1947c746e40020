import KaqTranslator.Training.Reconstruction

/-!
# What a patched tokenizer decodes to (`tokenizer_extension.py`)

A new word begins at every token that is marked, or begins with the marker; the tokens up to the next one are
glued to it.  `wordTexts` says so with `List.splitBy`, and `word_boundary_decoding` that the text which
`convert_tokens_to_string` returns is these words, joined by single spaces.
-/

namespace KaqTranslator

open Runs

/-- A token without a leading marker. -/
def content (token : Str) : Str := token.removePrefix wordBoundaryMarker

def startsNewWord (boundary_tokens : List Str) (token : Str) : Bool :=
  token ∈ boundary_tokens || token.startsWith wordBoundaryMarker

/-- The runs of tokens that make up the words. -/
def wordRuns (boundary_tokens tokens : List Str) : List (List Str) :=
  tokens.splitBy fun _ next => !startsNewWord boundary_tokens next

/-- The words, each with the contents of its tokens in order. -/
def wordTexts (boundary_tokens tokens : List Str) : List Str :=
  (wordRuns boundary_tokens tokens).map fun run => run.flatMap content

/-- The content of the token is not empty, and holds neither a marker nor white space. -/
structure WordPiece (token : Str) : Prop where
  content_ne_nil : content token ≠ []
  not_marker : ∀ c ∈ content token, c ≠ markerChar
  not_space : ∀ c ∈ content token, isspace c = false

instance (token : Str) : Decidable (WordPiece token) :=
  decidable_of_iff (!(content token).isEmpty && (content token).all fun c => c != markerChar && !isspace c) (by
    rw [Bool.and_eq_true, Bool.not_eq_true', List.isEmpty_eq_false_iff, List.all_eq_true]
    constructor
    · rintro ⟨hne, hall⟩
      refine ⟨hne, fun c hc => ?_, fun c hc => ?_⟩
      · simpa using (Bool.and_eq_true_iff.1 (hall c hc)).1
      · simpa using (Bool.and_eq_true_iff.1 (hall c hc)).2
    · rintro ⟨hne, hmarker, hspace⟩
      refine ⟨hne, fun c hc => ?_⟩
      simp [hmarker c hc, hspace c hc])

/-- Neither the first nor the last character is white space. -/
structure Trimmed (text : Str) : Prop where
  first : ∀ c, text.head? = some c → isspace c = false
  last : ∀ c, text.getLast? = some c → isspace c = false

/-- The decoder drops the space that the text of its tokens begins with. -/
def SentencePiece.DropsLeadingSpace (sp : SentencePiece) : Prop :=
  ∀ (tokens : List Str) (text : Str), Trimmed text → tokens.flatMap (surface sp.native) = ' ' :: text →
    sp.convert tokens = text

/-! ### Words -/

/-- Neither empty nor with white space in it. -/
structure IsWordText (w : Str) : Prop where
  ne_nil : w ≠ []
  not_space : ∀ c ∈ w, isspace c = false

theorem IsWordText.trimmed {w : Str} (h : IsWordText w) : Trimmed w :=
  ⟨fun c hc => h.not_space c (List.mem_of_mem_head? hc),
    fun c hc => h.not_space c (List.mem_of_mem_getLast? hc)⟩

theorem Trimmed.strip {text : Str} (h : Trimmed text) : text.strip = text :=
  Str.strip_of_not_space h.first h.last

section Join

variable {w w' : Str} {ws : List Str}

private theorem join_singleton (w : Str) : Str.join [' '] [w] = w := List.intercalate_singleton

private theorem join_cons_cons (w w' : Str) (ws : List Str) :
    Str.join [' '] (w :: w' :: ws) = w ++ ' ' :: Str.join [' '] (w' :: ws) := by
  rw [Str.join, List.intercalate_cons_cons, List.append_assoc, List.singleton_append]
  rfl

private theorem join_ne_nil (hw : w ≠ []) : Str.join [' '] (w :: ws) ≠ [] := by
  cases ws with
  | nil => rwa [join_singleton]
  | cons w' ws =>
    rw [join_cons_cons]
    exact List.append_ne_nil_of_left_ne_nil hw _

private theorem head?_join (hw : w ≠ []) : (Str.join [' '] (w :: ws)).head? = w.head? := by
  cases ws with
  | nil => rw [join_singleton]
  | cons w' ws => rw [join_cons_cons, List.head?_append_of_ne_nil _ hw]

private theorem getLast?_join (h : ∀ w ∈ ws, w ≠ []) {c : Char} (hc : (Str.join [' '] ws).getLast? = some c) :
    ∃ w ∈ ws, c ∈ w := by
  induction ws with
  | nil => cases hc
  | cons w ws ih =>
    cases ws with
    | nil =>
      rw [join_singleton] at hc
      exact ⟨w, List.mem_cons_self, List.mem_of_mem_getLast? hc⟩
    | cons w' ws =>
      have hne : Str.join [' '] (w' :: ws) ≠ [] := join_ne_nil (h w' (by simp))
      rw [join_cons_cons, List.getLast?_append_of_ne_nil _ (List.cons_ne_nil _ _), List.getLast?_cons,
        List.getLast?_eq_getLast_of_ne_nil hne, Option.getD_some] at hc
      obtain ⟨v, hv, hcv⟩ := ih (fun v hv => h v (List.mem_cons_of_mem _ hv))
        ((List.getLast?_eq_getLast_of_ne_nil hne).trans hc)
      exact ⟨v, List.mem_cons_of_mem _ hv, hcv⟩

/-- Words joined by single spaces neither begin nor end with white space. -/
theorem trimmed_join (h : ∀ w ∈ ws, IsWordText w) : Trimmed (Str.join [' '] ws) := by
  constructor
  · intro c hc
    cases ws with
    | nil => cases hc
    | cons w ws =>
      have hw := h w List.mem_cons_self
      rw [head?_join hw.ne_nil] at hc
      exact hw.not_space c (List.mem_of_mem_head? hc)
  · intro c hc
    obtain ⟨w, hw, hcw⟩ := getLast?_join (fun w hw => (h w hw).ne_nil) hc
    exact (h w hw).not_space c hcw

end Join

/-! ### One run -/

/-- The text of the tokens is decoded without a leading space. -/
theorem SentencePiece.DropsLeadingSpace.convert_eq {sp : SentencePiece} (hsp : sp.DropsLeadingSpace)
    {tokens : List Str} {text : Str} (htext : Trimmed text)
    (h : tokens.flatMap (surface sp.native) = text ∨ tokens.flatMap (surface sp.native) = ' ' :: text) :
    sp.convert tokens = text := by
  rcases h with h | h
  · obtain ⟨l, r, hl, hr, hs⟩ := sp.convert_spec tokens
    rw [h] at hs
    have hl' : l = [] := by
      cases l with
      | nil => rfl
      | cons c l =>
        have hspace := htext.first c (by rw [hs]; rfl)
        rw [hl c List.mem_cons_self] at hspace
        cases hspace
    have hr' : r = [] := by
      rcases List.eq_nil_or_concat' r with rfl | ⟨r, c, rfl⟩
      · rfl
      · have hspace := htext.last c (by rw [hs, ← List.append_assoc, List.getLast?_concat])
        rw [hr c (List.mem_append_right _ (List.mem_singleton.2 rfl))] at hspace
        cases hspace
    rw [hl', hr', List.nil_append, List.append_nil] at hs
    exact hs.symm
  · exact hsp tokens text htext h

section Run

variable {boundary_tokens tokens : List Str} {token : Str}

private theorem content_of_not_marked (h : token.startsWith wordBoundaryMarker = false) :
    content token = token := by
  rw [content, Str.removePrefix, h]
  rfl

private theorem eq_cons_content (h : token.startsWith wordBoundaryMarker = true) :
    token = markerChar :: content token := by
  obtain ⟨rest, rfl⟩ := List.isPrefixOf_iff_prefix.1 h
  rw [content, Str.removePrefix, if_pos h, List.drop_left]
  rfl

private theorem surface_of_not_marker (native : Str → Bool) (h : ∀ c ∈ token, c ≠ markerChar) :
    surface native token = token := by
  unfold surface
  split
  · exact List.map_congr_left (fun c hc => if_neg (h c hc)) |>.trans (List.map_id _)
  · rfl

/-- A token that begins no word is glued to the one before it. -/
private theorem surface_of_not_starts (native : Str → Bool) (htoken : WordPiece token)
    (h : startsNewWord boundary_tokens token = false) : surface native token = content token := by
  have hmarked : token.startsWith wordBoundaryMarker = false := (Bool.or_eq_false_iff.1 h).2
  have hmarker := htoken.not_marker
  rw [content_of_not_marked hmarked] at hmarker ⊢
  exact surface_of_not_marker native hmarker

/-- The marker of a native piece becomes a space. -/
private theorem surface_of_native {native : Str → Bool} (htoken : WordPiece token)
    (hnative : native token = true) (hmarked : token.startsWith wordBoundaryMarker = true) :
    surface native token = ' ' :: content token := by
  have hmap : (content token).map (fun c => if c = markerChar then ' ' else c) = content token :=
    (List.map_congr_left fun c hc => if_neg (htoken.not_marker c hc)).trans (List.map_id _)
  rw [surface, if_pos hnative]
  conv_lhs => rw [eq_cons_content hmarked, List.map_cons, if_pos rfl, hmap]

/-- The leading token of a run, with its marker as a space or without it. -/
private theorem surface_head {native : Str → Bool} (htoken : WordPiece token)
    (hnative : native token = false → token.startsWith wordBoundaryMarker = true → token ∈ boundary_tokens) :
    surface native (if token ∈ boundary_tokens then content token else token) = content token ∨
      surface native (if token ∈ boundary_tokens then content token else token) = ' ' :: content token := by
  have hcontent := surface_of_not_marker native htoken.not_marker
  by_cases hmem : token ∈ boundary_tokens
  · left
    rw [if_pos hmem, hcontent]
  · rw [if_neg hmem]
    cases hmarked : token.startsWith wordBoundaryMarker with
    | false =>
      left
      rw [content_of_not_marked hmarked] at hcontent ⊢
      exact hcontent
    | true =>
      right
      refine surface_of_native htoken ?_ hmarked
      by_contra hunknown
      exact hmem (hnative (Bool.eq_false_iff.2 hunknown) hmarked)

theorem isWordText_flatMap_content {run : List Str} (hne : run ≠ []) (h : ∀ token ∈ run, WordPiece token) :
    IsWordText (run.flatMap content) := by
  obtain ⟨token, rest, rfl⟩ := List.exists_cons_of_ne_nil hne
  constructor
  · rw [List.flatMap_cons]
    exact List.append_ne_nil_of_left_ne_nil (h token List.mem_cons_self).content_ne_nil _
  · intro c hc
    obtain ⟨token', htoken', hc⟩ := List.mem_flatMap.1 hc
    exact (h token' htoken').not_space c hc

/-- The pieces of the words: their leading marker is that of a native piece, or they are marked. -/
structure Decodable (native : Str → Bool) (boundary_tokens tokens : List Str) : Prop where
  piece : ∀ token ∈ tokens, WordPiece token
  marked : ∀ token ∈ tokens, native token = false → token.startsWith wordBoundaryMarker = true →
    token ∈ boundary_tokens

variable {sp : SentencePiece} {native : Str → Bool}

private theorem Decodable.of_subset {tokens' : List Str} (h : Decodable native boundary_tokens tokens)
    (hsub : tokens' ⊆ tokens) : Decodable native boundary_tokens tokens' :=
  ⟨fun t ht => h.piece t (hsub ht), fun t ht => h.marked t (hsub ht)⟩

private theorem surface_rest {rest : List Str} (h : Decodable native boundary_tokens (token :: rest))
    (hrest : ∀ t ∈ rest, startsNewWord boundary_tokens t = false) :
    rest.flatMap (surface native) = rest.flatMap content := by
  rw [List.flatMap_def, List.flatMap_def]
  refine congrArg List.flatten (List.map_congr_left fun t ht => ?_)
  exact surface_of_not_starts native (h.piece t (List.mem_cons_of_mem _ ht)) (hrest t ht)

/-- The text of a run whose leading marker is removed or made a space. -/
private theorem surface_run {run : List Str} (h : Decodable native boundary_tokens run)
    (hrun : IsRun (startsNewWord boundary_tokens) run) :
    (unmarkHead boundary_tokens run).flatMap (surface native) = run.flatMap content ∨
      (unmarkHead boundary_tokens run).flatMap (surface native) = ' ' :: run.flatMap content := by
  obtain ⟨token, rest, rfl, hrest⟩ := hrun
  have htail := surface_rest h hrest
  have hhead := surface_head (h.piece token List.mem_cons_self) (h.marked token List.mem_cons_self)
  have hunmark : unmarkHead boundary_tokens (token :: rest) =
      (if token ∈ boundary_tokens then content token else token) :: rest := by
    rw [unmarkHead]
    split
    · rfl
    · rfl
  rw [hunmark, List.flatMap_cons, List.flatMap_cons, htail]
  rcases hhead with hhead | hhead
  · left
    rw [hhead]
  · right
    rw [hhead]
    rfl

private theorem append_flatMap_surface {runs : List (List Str)}
    (h : ∀ run ∈ runs, run.flatMap (surface native) = ' ' :: run.flatMap content) (w : Str) :
    w ++ runs.flatten.flatMap (surface native) =
      Str.join [' '] (w :: runs.map fun run => run.flatMap content) := by
  induction runs generalizing w with
  | nil =>
    rw [List.flatten_nil, List.flatMap_nil, List.append_nil, List.map_nil, join_singleton]
  | cons run runs ih =>
    have hrest := ih (fun run' hrun' => h run' (List.mem_cons_of_mem _ hrun')) (run.flatMap content)
    rw [List.flatten_cons, List.flatMap_append, h run List.mem_cons_self, List.map_cons, join_cons_cons,
      ← hrest]
    rfl

/-- Without boundary tokens a run is decoded as it is, and one that begins a new word has a space before
it. -/
private theorem surface_run_of_starts {run : List Str} (h : Decodable native [] run)
    (hrun : IsRun (startsNewWord []) run) (hstarts : ∃ token rest, run = token :: rest ∧
      startsNewWord [] token = true) :
    run.flatMap (surface native) = ' ' :: run.flatMap content := by
  obtain ⟨token, rest, rfl, hrest⟩ := hrun
  obtain ⟨token', rest', hcons, hstarts⟩ := hstarts
  obtain ⟨rfl, rfl⟩ := List.cons.inj hcons
  have hmarked : token.startsWith wordBoundaryMarker = true := by simpa [startsNewWord] using hstarts
  have hnative : native token = true := by
    by_contra hunknown
    exact List.not_mem_nil (h.marked token List.mem_cons_self (Bool.eq_false_iff.2 hunknown) hmarked)
  rw [List.flatMap_cons, List.flatMap_cons, surface_rest h hrest,
    surface_of_native (h.piece token List.mem_cons_self) hnative hmarked]
  rfl

private theorem unmarkHead_nil (run : List Str) : unmarkHead [] run = run := by
  cases run with
  | nil => rfl
  | cons token rest => rw [unmarkHead, if_neg List.not_mem_nil]

theorem isWordText_of_mem (h : Decodable native boundary_tokens tokens) {w : Str}
    (hw : w ∈ wordTexts boundary_tokens tokens) : IsWordText w := by
  rw [wordTexts, wordRuns, ← cut_eq_splitBy] at hw
  obtain ⟨run, hrun, rfl⟩ := List.mem_map.1 hw
  obtain ⟨token, rest, hcons, -⟩ := (cut_spec (startsNewWord boundary_tokens) tokens).2 run hrun
  refine isWordText_flatMap_content (by rw [hcons]; exact List.cons_ne_nil _ _) fun t ht => ?_
  exact h.piece t (mem_of_mem_cut hrun ht)

theorem convertWithWordBoundaries_eq (hsp : sp.DropsLeadingSpace)
    (h : Decodable sp.native boundary_tokens tokens) :
    convertWithWordBoundaries sp boundary_tokens tokens =
      Str.join [' '] (wordTexts boundary_tokens tokens) := by
  have hwords : ∀ w ∈ wordTexts boundary_tokens tokens, IsWordText w := fun _ => isWordText_of_mem h
  have hdecoded : (cut (startsNewWord boundary_tokens) tokens).map
      (fun run => sp.convert (unmarkHead boundary_tokens run)) = wordTexts boundary_tokens tokens := by
    rw [wordTexts, wordRuns, ← cut_eq_splitBy]
    refine List.map_congr_left fun run hrun => ?_
    have hword : IsWordText (run.flatMap content) := by
      apply hwords
      rw [wordTexts, wordRuns, ← cut_eq_splitBy]
      exact List.mem_map_of_mem hrun
    exact hsp.convert_eq hword.trimmed (surface_run (h.of_subset fun _ => mem_of_mem_cut hrun)
      ((cut_spec (startsNewWord boundary_tokens) tokens).2 run hrun))
  have hfilter : (wordTexts boundary_tokens tokens).filter (fun part => !part.isEmpty) =
      wordTexts boundary_tokens tokens := by
    rw [List.filter_eq_self]
    intro w hw
    simpa using (hwords w hw).ne_nil
  show (Str.join [' '] (((cut (startsNewWord boundary_tokens) tokens).map
    fun run => sp.convert (unmarkHead boundary_tokens run)).filter fun part => !part.isEmpty)).strip = _
  rw [hdecoded, hfilter, (trimmed_join hwords).strip]

/-- Without boundary tokens the decoder puts the spaces itself. -/
theorem convert_eq_join (hsp : sp.DropsLeadingSpace) (h : Decodable sp.native [] tokens) :
    sp.convert tokens = Str.join [' '] (wordTexts [] tokens) := by
  apply hsp.convert_eq (trimmed_join fun _ => isWordText_of_mem h)
  obtain ⟨hflat, hruns⟩ := cut_spec (startsNewWord []) tokens
  have hdecodable : ∀ run ∈ cut (startsNewWord []) tokens, Decodable sp.native [] run :=
    fun run hrun => h.of_subset fun _ => mem_of_mem_cut hrun
  have htail : ∀ run ∈ (cut (startsNewWord []) tokens).tail,
      run.flatMap (surface sp.native) = ' ' :: run.flatMap content := fun run hrun =>
    surface_run_of_starts (hdecodable run (List.mem_of_mem_tail hrun)) (hruns run (List.mem_of_mem_tail hrun))
      (starts_of_mem_tail_cut hrun)
  rw [wordTexts, wordRuns, ← cut_eq_splitBy]
  cases hcut : cut (startsNewWord []) tokens with
  | nil =>
    left
    rw [hcut] at hflat
    rw [← hflat]
    rfl
  | cons run runs =>
    rw [hcut] at hflat hruns hdecodable htail
    rw [List.tail_cons] at htail
    have htext := append_flatMap_surface htail (run.flatMap content)
    have hrun := surface_run (hdecodable run List.mem_cons_self) (hruns run List.mem_cons_self)
    rw [unmarkHead_nil] at hrun
    rw [List.map_cons, ← htext, ← hflat, List.flatten_cons, List.flatMap_append]
    rcases hrun with hrun | hrun
    · left
      rw [hrun]
    · right
      rw [hrun]
      rfl

end Run

/-! ### Marking -/

namespace Tokenizer

variable (t : Tokenizer)

theorem markWordBoundaryTokens_append (a b : List Str) :
    (t.markWordBoundaryTokens a).markWordBoundaryTokens b = t.markWordBoundaryTokens (a ++ b) := by
  by_cases ha : a = []
  · subst ha
    rfl
  by_cases hb : b = []
  · subst hb
    rw [List.append_nil]
    rfl
  have hab : a ++ b ≠ [] := fun hnil => ha (List.append_eq_nil_iff.1 hnil).1
  simp only [markWordBoundaryTokens, if_neg ha, if_neg hb, if_neg hab, Option.getD_some, List.append_assoc]

/-- The calls mark what one call for all of their tokens would mark. -/
theorem foldl_markWordBoundaryTokens (calls : List (List Str)) :
    calls.foldl markWordBoundaryTokens t = t.markWordBoundaryTokens calls.flatten := by
  induction calls generalizing t with
  | nil => rfl
  | cons tokens calls ih => rw [List.foldl_cons, ih, markWordBoundaryTokens_append, List.flatten_cons]

/-- Only the set of the marked tokens counts. -/
theorem convertTokensToString_mark_congr (sp : SentencePiece) {a b : List Str}
    (h : ∀ token, token ∈ a ↔ token ∈ b) (tokens : List Str) :
    (t.markWordBoundaryTokens a).convertTokensToString sp tokens =
      (t.markWordBoundaryTokens b).convertTokensToString sp tokens := by
  have hnil : a = [] ↔ b = [] := by
    rw [List.eq_nil_iff_forall_not_mem, List.eq_nil_iff_forall_not_mem]
    exact forall_congr' fun token => not_congr (h token)
  by_cases ha : a = []
  · rw [ha, hnil.1 ha]
  · simp only [markWordBoundaryTokens, if_neg ha, if_neg (mt hnil.2 ha), convertTokensToString]
    apply convertWithWordBoundaries_congr
    intro token _
    rw [List.mem_append, List.mem_append, h]

end Tokenizer

/-- Decoding with word boundaries.  After any calls that mark tokens, the tokenizer decodes as if one call had
marked them all.  The text is made of the words, joined by single spaces; their runs make up the token list,
and a new one begins exactly at a token that is marked or begins with the marker. -/
theorem word_boundary_decoding (sp : SentencePiece) (hsp : sp.DropsLeadingSpace) (t : Tokenizer)
    (calls : List (List Str)) :
    let decoder := calls.foldl Tokenizer.markWordBoundaryTokens t
    let marked := decoder.boundaryTokens.getD []
    (∀ token, token ∈ marked ↔ token ∈ t.boundaryTokens.getD [] ∨ ∃ tokens ∈ calls, token ∈ tokens) ∧
      (∀ union : List Str, (∀ token, token ∈ union ↔ ∃ tokens ∈ calls, token ∈ tokens) → ∀ tokens,
        decoder.convertTokensToString sp tokens =
          (t.markWordBoundaryTokens union).convertTokensToString sp tokens) ∧
      ∀ tokens, Decodable sp.native marked tokens →
        decoder.convertTokensToString sp tokens =
            Str.join [' '] (wordTexts marked tokens) ∧
          (wordRuns marked tokens).flatten = tokens ∧
          (∀ run ∈ wordRuns marked tokens, IsRun (startsNewWord marked) run) ∧
          ∀ run ∈ (wordRuns marked tokens).tail, ∃ token rest, run = token :: rest ∧
            startsNewWord marked token = true := by
  intro decoder marked
  have hdecoder : decoder = t.markWordBoundaryTokens calls.flatten := t.foldl_markWordBoundaryTokens calls
  refine ⟨fun token => ?_, fun union hunion tokens => ?_, fun tokens h => ⟨?_, ?_⟩⟩
  · show token ∈ decoder.boundaryTokens.getD [] ↔ _
    rw [hdecoder, Tokenizer.boundaryTokens_mark_getD, List.mem_append, List.mem_flatten]
  · rw [hdecoder]
    apply t.convertTokensToString_mark_congr sp
    intro token
    rw [hunion, List.mem_flatten]
  · unfold Tokenizer.convertTokensToString
    cases hsome : decoder.boundaryTokens with
    | none =>
      have hmarked : marked = [] := congrArg (Option.getD · []) hsome
      rw [hmarked] at h ⊢
      exact convert_eq_join hsp h
    | some boundary_tokens =>
      have hmarked : marked = boundary_tokens := congrArg (Option.getD · []) hsome
      rw [hmarked] at h ⊢
      exact convertWithWordBoundaries_eq hsp h
  · rw [wordRuns, ← cut_eq_splitBy]
    obtain ⟨hflat, hruns⟩ := cut_spec (startsNewWord marked) tokens
    exact ⟨hflat, hruns, fun run hrun => starts_of_mem_tail_cut hrun⟩

private theorem dropsLeadingSpace_stripping (native : Str → Bool) :
    (SentencePiece.stripping native).DropsLeadingSpace := by
  intro tokens text htext hsurface
  have hsurface : tokens.flatMap (surface native) = ' ' :: text := hsurface
  have hlstrip : Str.lstrip (' ' :: text) = text := by
    rw [Str.lstrip, List.dropWhile_cons_of_pos (by decide)]
    exact Str.lstrip_of_not_space htext.first
  show Str.strip (tokens.flatMap (surface native)) = text
  have hstrip : Str.rstrip (Str.lstrip text) = text := htext.strip
  rw [Str.lstrip_of_not_space htext.first] at hstrip
  rw [hsurface, Str.strip, hlstrip, hstrip]

private def zqvbnTokens : List Str :=
  ["▁el".toList, "▁zqvbn".toList, "wkr".toList, "awach".toList, "▁pueblo".toList]

private def zqvbnCalls : List (List Str) := [["▁zqvbn".toList], ["awach".toList, "▁zqvbn".toList], []]

private def spanishPieces : SentencePiece :=
  .stripping fun token => token = "▁el".toList ∨ token = "▁pueblo".toList

/-- A marked piece, its continuation and a marked word, between two native pieces. -/
theorem word_boundary_decoding_pieces :
    (zqvbnCalls.foldl Tokenizer.markWordBoundaryTokens (.load [])).convertTokensToString spanishPieces
      zqvbnTokens = "el zqvbnwkr awach pueblo".toList := by
  have hpieces : Decodable spanishPieces.native ["▁zqvbn".toList, "awach".toList, "▁zqvbn".toList]
      zqvbnTokens := by
    constructor
    · intro token htoken
      simp only [zqvbnTokens, List.mem_cons, List.not_mem_nil, or_false] at htoken
      rcases htoken with rfl | rfl | rfl | rfl | rfl
      all_goals decide
    · intro token htoken
      simp only [zqvbnTokens, List.mem_cons, List.not_mem_nil, or_false] at htoken
      rcases htoken with rfl | rfl | rfl | rfl | rfl
      all_goals decide
  have hwords := ((word_boundary_decoding spanishPieces (dropsLeadingSpace_stripping _) (.load [])
    zqvbnCalls).2.2 zqvbnTokens hpieces).1
  rw [hwords]
  decide

end KaqTranslator
