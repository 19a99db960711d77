/-
  Jrpxy.HttpMessage.ConnectionOptions

  Connection options, as the list grammar has them and as the parser reads them.

  `TokenParser` is an iterator; `calls` are the answers of its first calls.
  The reference splits the value at commas, trims the pieces and leaves the
  empty ones out.  The two agree on every value whose first element does not
  stand behind whitespace (`tokensAgree_iff`): the parser skips whitespace
  behind a token and behind a comma, and not at the start.
-/
import Jrpxy.HttpMessage.FieldList

namespace Jrpxy.HttpMessage

open Ascii Util SepList

/-! ## The iterator -/

namespace TokenParser

/-- What one call yields. -/
abbrev Item := Except ConnectionTokenParserError Bytes

/-- The rounds of one call, and the bytes it leaves; each round uses up at least one. -/
def nextRounds : Nat → Bytes → Option Item × Bytes
  | 0, inner => (none, inner)
  | fuel + 1, inner =>
    if inner.isEmpty then (none, inner)
    else
      let tok := inner.takeWhile isValidTchar
      match skipWhitespace (inner.dropWhile isValidTchar) with
      | [] => if tok.isEmpty then nextRounds fuel [] else (some (.ok tok), [])
      | next :: rest =>
        if next != 44 then (some (.error (.illegalChar next)), [])
        else if tok.isEmpty then nextRounds fuel (skipWhitespace rest)
        else (some (.ok tok), skipWhitespace rest)

/-- `Iterator::next` -/
def next (inner : Bytes) : Option Item × Bytes := nextRounds inner.length inner

/-- The answers of the first `n` calls. -/
def calls : Nat → Bytes → List (Option Item)
  | 0, _ => []
  | n + 1, inner =>
    let (item, inner) := next inner
    item :: calls n inner

end TokenParser

/-! ## What the options come to -/

/-- What an iterator over options is to yield, an error as `none`: the options up to the
    first that is no token, and one error there. -/
def optionItems : List Bytes → List (Option Bytes)
  | [] => []
  | e :: es => if isValidFieldName e then some e :: optionItems es else [none]

/-! ## The parser as a list -/

theorem skipWhitespace_eq (v : Bytes) : skipWhitespace v = v.dropWhile isOws := by
  rw [skipWhitespace]
  congr 1
  funext b
  rw [isOws, Bool.or_comm]

/-- What is skipped is whitespace, and what is left does not begin with any. -/
theorem skipWhitespace_cases (v : Bytes) :
    ∃ ws, v = ws ++ skipWhitespace v ∧ (∀ b ∈ ws, isOws b = true) ∧
      ∀ b ∈ (skipWhitespace v).head?, isOws b = false := by
  rw [skipWhitespace_eq]
  refine ⟨v.takeWhile isOws, List.takeWhile_append_dropWhile.symm, ?_, ?_⟩
  · exact fun b hb => List.all_eq_true.mp List.all_takeWhile b hb
  · intro b hb
    have hnot := List.head?_dropWhile_not isOws v
    rw [Option.mem_def.mp hb] at hnot
    simpa using hnot

theorem length_skipWhitespace_le (v : Bytes) : (skipWhitespace v).length ≤ v.length := by
  rw [skipWhitespace_eq]
  exact (List.dropWhile_suffix isOws).length_le

/-- What a round leaves behind a comma is shorter. -/
theorem length_behind_lt {inner rest : Bytes} {b : UInt8}
    (h : skipWhitespace (inner.dropWhile isValidTchar) = b :: rest) :
    (skipWhitespace rest).length < inner.length := by
  have hrest := length_skipWhitespace_le rest
  have hskip := length_skipWhitespace_le (inner.dropWhile isValidTchar)
  have hdrop := (List.dropWhile_suffix isValidTchar (l := inner)).length_le
  rw [h, List.length_cons] at hskip
  omega

@[simp] theorem tokenParserRounds_nil (fuel : Nat) : tokenParserRounds fuel [] = [] := by
  cases fuel <;> rfl

/-- A round for each byte is enough. -/
theorem tokenParserRounds_congr {fuel fuel' : Nat} {inner : Bytes} (h : inner.length ≤ fuel)
    (h' : inner.length ≤ fuel') : tokenParserRounds fuel inner = tokenParserRounds fuel' inner := by
  induction fuel generalizing fuel' inner with
  | zero =>
    rw [List.length_eq_zero_iff.mp (Nat.le_zero.mp h)]
    simp
  | succ fuel ih =>
    by_cases hnil : inner = []
    · simp [hnil]
    · obtain ⟨fuel', rfl⟩ := Nat.exists_eq_add_of_le'
        (Nat.le_trans (List.length_pos_iff.mpr hnil) h')
      rw [tokenParserRounds, tokenParserRounds]
      cases hskip : skipWhitespace (inner.dropWhile isValidTchar) with
      | nil => simp
      | cons next rest =>
        have hlt := length_behind_lt hskip
        have hih := @ih fuel' (skipWhitespace rest) (by omega) (by omega)
        simp only [hih]

/-- One call takes the first item. -/
theorem nextRounds_spec {fuel : Nat} {inner : Bytes} (h : inner.length ≤ fuel) :
    match TokenParser.nextRounds fuel inner with
    | (none, rest) => tokenParserRounds fuel inner = [] ∧ rest = []
    | (some item, rest) => tokenParserRounds fuel inner = item :: tokenParser rest := by
  induction fuel generalizing inner with
  | zero =>
    have hnil := List.length_eq_zero_iff.mp (Nat.le_zero.mp h)
    exact ⟨by rw [hnil]; rfl, hnil⟩
  | succ fuel ih =>
    by_cases hnil : inner = []
    · subst hnil
      exact ⟨rfl, rfl⟩
    · have hne : inner.isEmpty = false := by simpa using hnil
      rw [TokenParser.nextRounds, tokenParserRounds]
      simp only [hne, Bool.false_eq_true, if_false]
      cases hskip : skipWhitespace (inner.dropWhile isValidTchar) with
      -- the end stands behind the token, if there is one
      | nil =>
        dsimp only
        by_cases htok : (inner.takeWhile isValidTchar).isEmpty = true
        · rw [if_pos htok, if_pos htok]
          exact ih (Nat.zero_le fuel)
        · rw [if_neg htok, if_neg htok]
          rfl
      | cons next rest =>
        have hlt := length_behind_lt hskip
        have hle : (skipWhitespace rest).length ≤ fuel := by omega
        dsimp only
        by_cases hcomma : (next != 44) = true
        · rw [if_pos hcomma, if_pos hcomma]
          rfl
        · rw [if_neg hcomma, if_neg hcomma]
          by_cases htok : (inner.takeWhile isValidTchar).isEmpty = true
          -- an empty element is skipped
          · rw [if_pos htok, if_pos htok]
            exact ih hle
          · rw [if_neg htok, if_neg htok, tokenParserRounds_congr hle (Nat.le_refl _)]
            rfl

/-- The calls yield the items of the list, and then nothing, however often. -/
theorem calls_eq (n : Nat) (v : Bytes) :
    TokenParser.calls n v = ((tokenParser v).map some ++ List.replicate n none).take n := by
  induction n generalizing v with
  | zero => rfl
  | succ n ih =>
    have hspec := nextRounds_spec (Nat.le_refl v.length)
    rw [TokenParser.calls, TokenParser.next]
    generalize TokenParser.nextRounds v.length v = x at hspec
    obtain ⟨_ | item, rest⟩ := x
    · obtain ⟨hnil, rfl⟩ := hspec
      have hv : tokenParser v = [] := hnil
      have hrest : tokenParser [] = [] := rfl
      simp only [ih, hv, hrest, List.map_nil, List.nil_append, List.replicate_succ,
        List.take_succ_cons, List.take_replicate, Nat.min_self]
    · have hv : tokenParser v = item :: tokenParser rest := hspec
      simp only [ih, hv, List.map_cons, List.cons_append, List.take_succ_cons]
      rw [List.take_append, List.take_append, List.take_replicate, List.take_replicate]
      congr 3
      omega

/-! ## The parser against the grammar -/

theorem isValidTchar_of_isOws {b : UInt8} (hb : isOws b = true) : isValidTchar b = false := by
  cases h : isValidTchar b with
  | false => rfl
  | true =>
    rw [isOws_of_isValidTchar h] at hb
    cases hb

theorem skipWhitespace_cons {w : UInt8} (hw : isOws w = true) (v : Bytes) :
    skipWhitespace (w :: v) = skipWhitespace v := by
  rw [skipWhitespace_eq, skipWhitespace_eq, List.dropWhile_cons_of_pos hw]

theorem listElements_skipWhitespace (v : Bytes) :
    listElements (skipWhitespace v) = listElements v := by
  obtain ⟨ws, hv, hws, -⟩ := skipWhitespace_cases v
  conv => rhs; rw [hv]
  exact (elements_append_left (by decide) hws _).symm

/-- A first element with a byte in it that no token has is one error. -/
theorem optionItems_bad {v : Bytes} {p : Bytes} {es : List Bytes}
    (hv : listElements v = p :: es) {b : UInt8} (hb : b ∈ p) (hbad : isValidTchar b = false) :
    optionItems (nonEmptyElements v) = [none] := by
  have hne : (!p.isEmpty) = true := by simpa using List.ne_nil_of_mem hb
  have hname : isValidFieldName p = false := by
    rw [← Bool.not_eq_true, isValidFieldName_iff]
    rintro ⟨-, hall⟩
    rw [hall b hb] at hbad
    cases hbad
  rw [nonEmptyElements, hv, List.filter_cons, if_pos hne, optionItems, hname]
  rfl

/-- An element in which something other than a comma stands behind a token has a byte that is
    in no token: that byte, or the whitespace in front of it. -/
theorem exists_bad_behind_token {tok ws mid : Bytes} {next : UInt8}
    (htok : ∀ b ∈ tok, isValidTchar b = true) (hws : ∀ b ∈ ws, isOws b = true)
    (hnext : isOws next = false) (hstop : ws = [] → isValidTchar next = false)
    (hnone : tok = [] → ws = []) :
    ∃ b ∈ trim isOws (tok ++ ws ++ next :: mid), isValidTchar b = false := by
  cases ws with
  | nil => exact ⟨next, mem_trim (by simp) hnext, hstop rfl⟩
  | cons w ws =>
    have hw : isOws w = true := hws w (by simp)
    have hne : tok ≠ [] := fun h => by cases hnone h
    obtain ⟨t, ts, rfl⟩ := List.exists_cons_of_ne_nil hne
    refine ⟨w, ?_, isValidTchar_of_isOws hw⟩
    -- between the token and the byte behind it whitespace is not trimmed
    have hu : ∃ a ∈ t :: ts, isOws a = false :=
      ⟨t, by simp, isOws_of_isValidTchar (htok t (by simp))⟩
    have hv : ∃ a ∈ ws ++ next :: mid, isOws a = false := ⟨next, by simp, hnext⟩
    have hmem := mem_trim_between hu hv w
    rwa [List.append_assoc]

/-- Where no whitespace is in front, none stands in front of the next element unless a token
    does. -/
theorem nil_of_no_token {inner tok ws rest : Bytes} (hsplit : tok ++ (ws ++ rest) = inner)
    (hws : ∀ b ∈ ws, isOws b = true) (hhead : ∀ b ∈ inner.head?, isOws b = false)
    (htok : tok = []) : ws = [] := by
  cases ws with
  | nil => rfl
  | cons w ws =>
    subst htok
    have hw := hhead w (by rw [← hsplit]; rfl)
    rw [hws w (by simp)] at hw
    cases hw

/-- Where no whitespace is in front, the parser yields what the grammar says. -/
theorem tokenParserRounds_eq {fuel : Nat} {inner : Bytes} (hfuel : inner.length ≤ fuel)
    (hhead : ∀ b ∈ inner.head?, isOws b = false) :
    (tokenParserRounds fuel inner).map Except.toOption = optionItems (nonEmptyElements inner) := by
  induction fuel generalizing inner with
  | zero =>
    rw [List.length_eq_zero_iff.mp (Nat.le_zero.mp hfuel)]
    rfl
  | succ fuel ih =>
    by_cases hnil : inner = []
    · subst hnil
      rfl
    · have hempty : inner.isEmpty = false := by simpa using hnil
      rw [tokenParserRounds]
      simp only [hempty, Bool.false_eq_true, if_false]
      have htok : ∀ b ∈ inner.takeWhile isValidTchar, isValidTchar b = true :=
        fun b hb => List.all_eq_true.mp List.all_takeWhile b hb
      have hsplit : inner.takeWhile isValidTchar ++ inner.dropWhile isValidTchar = inner :=
        List.takeWhile_append_dropWhile
      have hstop := List.head?_dropWhile_not isValidTchar inner
      obtain ⟨ws, hws, hall, hskipped⟩ := skipWhitespace_cases (inner.dropWhile isValidTchar)
      have hlt : ∀ b rest, skipWhitespace (inner.dropWhile isValidTchar) = b :: rest →
          (skipWhitespace rest).length < inner.length := fun _ _ h => length_behind_lt h
      generalize inner.takeWhile isValidTchar = tok at htok hsplit ⊢
      have htok_nil : tok = [] → ws = [] := nil_of_no_token (by rw [← hws]; exact hsplit) hall hhead
      cases hskip : skipWhitespace (inner.dropWhile isValidTchar) with
      | nil =>
        rw [hskip, List.append_nil] at hws
        rw [hws] at hsplit
        obtain ⟨hcomma, htrim⟩ := listElements_token htok hall
        have hne : tok ≠ [] := by
          intro h
          rw [h, htok_nil h] at hsplit
          exact hnil hsplit.symm
        have hels : listElements inner = [tok] := by
          rw [← hsplit, listElements, elements_of_not_mem hcomma, htrim]
        have hname : isValidFieldName tok = true := isValidFieldName_iff.mpr ⟨hne, htok⟩
        simp [nonEmptyElements, hels, hne, optionItems, hname, Except.toOption]
      | cons next rest =>
        rw [hskip] at hws hskipped
        rw [hws, ← List.append_assoc] at hsplit
        have hnext : isOws next = false := hskipped next rfl
        obtain ⟨hcomma, htrim⟩ := listElements_token htok hall
        dsimp only
        by_cases hnext44 : next = 44
        -- a comma ends the element, and the rounds go on behind it
        · subst hnext44
          rw [if_neg (by decide)]
          have hels : listElements inner = tok :: listElements (skipWhitespace rest) := by
            rw [← hsplit, listElements, elements_append_sep hcomma, htrim,
              listElements_skipWhitespace]
            rfl
          have hih := @ih (skipWhitespace rest) (by have := hlt _ _ hskip; omega)
            (by obtain ⟨-, -, -, h⟩ := skipWhitespace_cases rest; exact h)
          by_cases hne : tok = []
          · rw [if_pos (by simp [hne]), hih, nonEmptyElements, nonEmptyElements, hels]
            simp [hne]
          · have hname : isValidFieldName tok = true := isValidFieldName_iff.mpr ⟨hne, htok⟩
            rw [if_neg (by simpa using hne), List.map_cons, hih, nonEmptyElements, nonEmptyElements, hels,
              List.filter_cons_of_pos (by simpa using hne), optionItems, hname]
            rfl
        -- anything else is an error, and the element is no token
        · rw [if_pos (by simpa using hnext44)]
          obtain ⟨mid, es, hels⟩ := listElements_first hcomma hnext44 rest
          rw [hsplit] at hels
          have hstop : ws = [] → isValidTchar next = false := by
            rintro rfl
            rw [hws] at hstop
            simpa using hstop
          have hbehind : ∃ b ∈ trim isOws (tok ++ ws ++ next :: mid), isValidTchar b = false :=
            exists_bad_behind_token htok hall hnext hstop htok_nil
          obtain ⟨b, hb, hbad⟩ := hbehind
          rw [optionItems_bad hels hb hbad]
          rfl

/-- Behind whitespace at the front, the first item is an error unless an empty element
    comes first. -/
theorem tokenParser_leading {w : UInt8} (hw : isOws w = true) (v : Bytes) :
    tokenParser (w :: v) = match skipWhitespace v with
      | [] => []
      | next :: rest =>
        if next != 44 then [.error (.illegalChar next)] else tokenParser (skipWhitespace rest) := by
  have hnot : isValidTchar w = false := isValidTchar_of_isOws hw
  have hskip : skipWhitespace (w :: v) = skipWhitespace v := skipWhitespace_cons hw v
  rw [tokenParser, List.length_cons, tokenParserRounds,
    List.takeWhile_cons_of_neg (by simp [hnot]), List.dropWhile_cons_of_neg (by simp [hnot]), hskip]
  cases hcase : skipWhitespace v with
  | nil => simp
  | cons next rest =>
    have hle := length_skipWhitespace_le v
    have hrest := length_skipWhitespace_le rest
    rw [hcase, List.length_cons] at hle
    have hcongr := @tokenParserRounds_congr v.length (skipWhitespace rest).length _
      (by omega) (Nat.le_refl (skipWhitespace rest).length)
    simp only [List.isEmpty_cons, Bool.false_eq_true, if_false, List.isEmpty_nil, if_true, hcongr,
      tokenParser]

/-- The calls yield what the grammar says, an error as `none`, and then nothing, however
    often; and a further field only adds its own items. -/
structure TokensAgree (v : Bytes) : Prop where
  calls : ∀ n, (TokenParser.calls n v).map (Option.map Except.toOption) =
    ((optionItems (nonEmptyElements v)).map some ++ List.replicate n none).take n
  concat : ∀ (h : Headers) (name : Bytes), eqIgnoreCase (ascii "connection") name = true →
    (h.pushRaw name v).connectionTokens = h.connectionTokens ++ tokenParser v

/-- The value begins with whitespace, and a token is its first element. -/
def TokenBehindSpace (v : Bytes) : Prop :=
  (∃ w ∈ v.head?, isOws w = true) ∧ ∃ e ∈ (listElements v).head?, isValidFieldName e = true

/-- The items of the list decide the calls. -/
theorem tokensAgree_of_items {v : Bytes}
    (h : (tokenParser v).map Except.toOption = optionItems (nonEmptyElements v)) : TokensAgree v where
  calls n := by
    rw [calls_eq, ← h, List.map_take, List.map_append, List.map_map, List.map_map,
      List.map_replicate]
    rfl
  concat headers name hname := by
    have hfilter : (headers.pushRaw name v).getHeader (ascii "connection") =
        headers.getHeader (ascii "connection") ++ [(name, v)] := by
      rw [Headers.getHeader, Headers.pushRaw, List.filter_append, List.filter_cons, if_pos hname]
      rfl
    rw [Headers.connectionTokens, hfilter, List.flatMap_append]
    simp [Headers.connectionTokens]

/-- The first element decides whether a token stands behind the whitespace. -/
theorem not_tokenBehindSpace {v e : Bytes} {es : List Bytes} (hels : listElements v = e :: es)
    (hname : isValidFieldName e = false) : ¬ TokenBehindSpace v := by
  rintro ⟨-, e', he, hvalid⟩
  rw [hels] at he
  cases he
  rw [hname] at hvalid
  cases hvalid

/-- What the parser and the grammar make of a value that begins with whitespace, by the byte
    behind it. -/
theorem tokenParser_cases_leading {w : UInt8} (hw : isOws w = true) (v : Bytes) :
    (¬ TokenBehindSpace (w :: v) ∧
      (tokenParser (w :: v)).map Except.toOption = optionItems (nonEmptyElements (w :: v))) ∨
    (TokenBehindSpace (w :: v) ∧ ∃ b, tokenParser (w :: v) = [.error (.illegalChar b)]) := by
  have hels : listElements (w :: v) = listElements (skipWhitespace v) := by
    rw [← listElements_skipWhitespace (w :: v), skipWhitespace_cons hw]
  have hparse := tokenParser_leading hw v
  obtain ⟨-, -, -, hhead⟩ := skipWhitespace_cases v
  cases hcase : skipWhitespace v with
  | nil =>
    rw [hcase] at hparse hels
    refine .inl ⟨not_tokenBehindSpace hels rfl, ?_⟩
    rw [hparse, nonEmptyElements, hels]
    rfl
  | cons next rest =>
    rw [hcase] at hparse hels hhead
    have hnext : isOws next = false := hhead next rfl
    by_cases h44 : next = 44
    -- an empty element comes first, and the list goes on behind its comma
    · subst h44
      have hcut : listElements (44 :: rest) = [] :: listElements (skipWhitespace rest) := by
        rw [listElements_skipWhitespace]
        exact elements_append_sep (x := []) nofun rest
      rw [hcut] at hels
      refine .inl ⟨not_tokenBehindSpace hels rfl, ?_⟩
      have hrest := tokenParserRounds_eq (Nat.le_refl (skipWhitespace rest).length)
        (by obtain ⟨-, -, -, h⟩ := skipWhitespace_cases rest; exact h)
      rw [hparse, nonEmptyElements, hels]
      exact hrest
    -- an element that is not empty: the parser fails on it, the grammar if it is no token
    · dsimp only at hparse
      rw [if_pos (by simpa using h44)] at hparse
      obtain ⟨mid, es, hfirst⟩ := listElements_first (u := []) nofun h44 rest
      rw [List.nil_append, List.nil_append] at hfirst
      rw [hfirst] at hels
      have hne : trim isOws (next :: mid) ≠ [] := List.ne_nil_of_mem (mem_trim (by simp) hnext)
      have hoptions : nonEmptyElements (w :: v) =
          trim isOws (next :: mid) :: es.filter fun e => !e.isEmpty := by
        rw [nonEmptyElements, hels, List.filter_cons, if_pos (by simpa using hne)]
      cases hname : isValidFieldName (trim isOws (next :: mid)) with
      | false =>
        refine .inl ⟨not_tokenBehindSpace hels hname, ?_⟩
        rw [hparse, hoptions, optionItems, hname]
        rfl
      | true =>
        apply Or.inr
        constructor
        · exact ⟨⟨w, rfl, hw⟩, _, by rw [hels]; rfl, hname⟩
        · exact ⟨next, hparse⟩

/-- Behind whitespace in front of a token the only item is an error; every other value is
    read by the grammar. -/
theorem tokenParser_cases (v : Bytes) :
    (¬ TokenBehindSpace v ∧
      (tokenParser v).map Except.toOption = optionItems (nonEmptyElements v)) ∨
    (TokenBehindSpace v ∧ ∃ b, tokenParser v = [.error (.illegalChar b)]) := by
  by_cases hlead : ∃ w ∈ v.head?, isOws w = true
  · obtain ⟨w, hw, hows⟩ := hlead
    obtain ⟨v, rfl⟩ : ∃ v', v = w :: v' := by
      cases v with
      | nil => cases hw
      | cons a v =>
        cases hw
        exact ⟨v, rfl⟩
    exact tokenParser_cases_leading hows v
  · apply Or.inl
    constructor
    · exact fun h => hlead h.1
    · apply tokenParserRounds_eq (Nat.le_refl v.length)
      intro b hb
      rw [← Bool.not_eq_true]
      exact fun h => hlead ⟨b, hb, h⟩

/-- The parser reads a value by the list grammar exactly if it does not begin with
    whitespace in front of a token. -/
theorem tokensAgree_iff (v : Bytes) : TokensAgree v ↔ ¬ TokenBehindSpace v := by
  rcases tokenParser_cases v with ⟨hnot, hitems⟩ | ⟨hbehind, b, herror⟩
  · exact iff_of_true (tokensAgree_of_items hitems) hnot
  · apply iff_of_false
    · intro hagree
      obtain ⟨-, e, he, hname⟩ := hbehind
      obtain ⟨es, hels⟩ : ∃ es, listElements v = e :: es := by
        cases hcase : listElements v with
        | nil =>
          rw [hcase] at he
          cases he
        | cons a es =>
          rw [hcase] at he
          cases he
          exact ⟨es, rfl⟩
      have hne : e ≠ [] := (isValidFieldName_iff.mp hname).1
      have hoptions : nonEmptyElements v = e :: es.filter fun e => !e.isEmpty := by
        rw [nonEmptyElements, hels, List.filter_cons, if_pos (by simpa using hne)]
      have hone := hagree.calls 1
      rw [calls_eq, herror, hoptions, optionItems, hname] at hone
      cases hone
    · exact fun hnot => hnot hbehind

/-- What is collected without an error are the elements of which the items are made. -/
theorem collectTokens_eq {ε : Type} {items : List (Except ε Bytes)} {es ts : List Bytes}
    (hitems : items.map Except.toOption = optionItems es) (h : collectTokens items = .ok ts) :
    ts = es := by
  induction items generalizing ts es with
  | nil =>
    cases h
    cases es with
    | nil => rfl
    | cons e es =>
      rw [optionItems] at hitems
      split at hitems
      · cases hitems
      · cases hitems
  | cons item items ih =>
    cases item with
    | error e => cases h
    | ok t =>
      rw [collectTokens] at h
      cases hrest : collectTokens items with
      | error e =>
        rw [hrest] at h
        cases h
      | ok us =>
        rw [hrest] at h
        cases h
        cases es with
        | nil => cases hitems
        | cons e es =>
          rw [optionItems] at hitems
          split at hitems
          · rw [List.map_cons, List.cons.injEq] at hitems
            cases hitems.1
            rw [ih hitems.2 hrest]
          · cases hitems

/-- What is collected without an error is what the grammar lists. -/
theorem collectTokens_tokenParser {v : Bytes} {ts : List Bytes}
    (h : collectTokens (tokenParser v) = .ok ts) : ts = nonEmptyElements v := by
  rcases tokenParser_cases v with ⟨-, hitems⟩ | ⟨-, b, herror⟩
  · exact collectTokens_eq hitems h
  · rw [herror] at h
    cases h

theorem collectTokens_append {ε α : Type} {xs ys : List (Except ε α)} {as : List α}
    (h : collectTokens (xs ++ ys) = .ok as) :
    ∃ us vs, collectTokens xs = .ok us ∧ collectTokens ys = .ok vs ∧ as = us ++ vs := by
  induction xs generalizing as with
  | nil => exact ⟨[], as, rfl, h, rfl⟩
  | cons x xs ih =>
    cases x with
    | error e => cases h
    | ok a =>
      rw [List.cons_append, collectTokens] at h
      cases hrest : collectTokens (xs ++ ys) with
      | error e =>
        rw [hrest] at h
        cases h
      | ok bs =>
        rw [hrest] at h
        cases h
        obtain ⟨us, vs, hus, hvs, rfl⟩ := ih hrest
        refine ⟨a :: us, vs, ?_, hvs, rfl⟩
        rw [collectTokens, hus]
        rfl

/-- The options that all `Connection` fields list. -/
def listedOptions (h : Headers) : List Bytes :=
  (h.getHeader (ascii "connection")).flatMap fun f => nonEmptyElements f.2

/-- Fields whose options are collected list just these. -/
theorem collectTokens_connectionTokens {h : Headers} {ts : List Bytes}
    (hok : collectTokens h.connectionTokens = .ok ts) : ts = listedOptions h := by
  rw [Headers.connectionTokens] at hok
  rw [listedOptions]
  generalize h.getHeader (ascii "connection") = fs at hok ⊢
  induction fs generalizing ts with
  | nil =>
    cases hok
    rfl
  | cons f fs ih =>
    rw [List.flatMap_cons] at hok
    obtain ⟨us, vs, hus, hvs, rfl⟩ := collectTokens_append hok
    rw [List.flatMap_cons, collectTokens_tokenParser hus, ih hvs]

/-- A message of this version with these fields leaves its connection open: no field lists
    `close`, and one lists `keep-alive` if the version is HTTP/1.0. -/
def Persists (version : HttpVersion) (headers : Headers) : Prop :=
  (∀ o ∈ listedOptions headers, eqIgnoreCase o (ascii "close") = false) ∧
    (version = .http10 → ∃ o ∈ listedOptions headers, eqIgnoreCase o (ascii "keep-alive") = true)

/-- What the parser makes of the fields is the rule over all of them. -/
theorem connectionIsPersistent_iff {headers : Headers} {version : HttpVersion} {persistent : Bool}
    (h : headers.connectionIsPersistent version = .ok persistent) :
    persistent = true ↔ Persists version headers := by
  unfold Headers.connectionIsPersistent at h
  rcases htokens : collectTokens headers.connectionTokens with e | tokens
  · rw [htokens] at h
    cases h
  · obtain rfl := collectTokens_connectionTokens htokens
    rw [htokens] at h
    -- an option that is `keep-alive` is not `close`
    have hother : ∀ o : Bytes, eqIgnoreCase o (ascii "keep-alive") = true →
        eqIgnoreCase o (ascii "close") = false := by
      intro o ho
      rw [eqIgnoreCase_congr ho]
      decide +kernel
    have hkeep : ∀ o : Bytes, (!eqIgnoreCase o (ascii "close") &&
        eqIgnoreCase o (ascii "keep-alive")) = eqIgnoreCase o (ascii "keep-alive") := by
      intro o
      cases ho : eqIgnoreCase o (ascii "keep-alive") with
      | true => rw [hother o ho]; rfl
      | false => rw [Bool.and_false]
    have hclose : ((listedOptions headers).any fun t => eqIgnoreCase t (ascii "close")) = false ↔
        ∀ o ∈ listedOptions headers, eqIgnoreCase o (ascii "close") = false := by
      simp
    cases version with
    | http11 =>
      cases h
      rw [Persists, ← hclose]
      simp
    | http10 =>
      cases h
      rw [Persists, ← hclose]
      simp only [hkeep, Bool.and_eq_true, List.any_eq_true, Bool.not_eq_true']
      exact ⟨fun h => ⟨h.2, fun _ => h.1⟩, fun h => ⟨h.2 trivial, h.1⟩⟩

/-- A space in front of the only option: `push` accepts the value, the grammar lists one
    option, and the parser yields an error. -/
theorem tokensAgree_close_behind_space :
    Headers.empty.push (ascii "Connection") (ascii " close") =
        .ok ⟨[(ascii "Connection", ascii " close")]⟩ ∧
      optionItems (nonEmptyElements (ascii " close")) = [some (ascii "close")] ∧
      TokenParser.calls 2 (ascii " close") = [some (.error (.illegalChar 99)), none] ∧
      ¬ TokensAgree (ascii " close") := by
  refine ⟨rfl, by decide +kernel, rfl, ?_⟩
  intro hagree
  exact absurd (hagree.calls 1) (by decide +kernel)

end Jrpxy.HttpMessage
