/-
CashStratum/PasswordTokens.lean

The two loops of `stratifier.c` that walk over a password: `password_requested_diff`,
which reads the difficulty out of it, and `password_diff_token_ignored`, which says
whether there is a request that could not be read.

A pointer into the password is the text from there on.  Both loops turn out to be
functions of one list of tokens, the pieces between separators that are not empty.  The
first gives the first valid `diff=` token or else the last valid `d=` token, as it
stands: the bounds of the configuration are applied by `apply_password_diff`.
-/
import CashStratum.Difficulty

namespace CashStratum

/-! ### The loops -/

/-- What `strtoll` returns: the number, whether `errno` is set, and `end`. -/
structure Strtoll where
  value : Nat
  errno : Bool
  stop : Bytes

/-- `strtoll` in base ten of a text that starts with a digit. -/
def strtollDigits (s : Bytes) : Strtoll :=
  let value := numeral 10 ((s.takeWhile isDigit).map (· - 48))
  let stop := s.dropWhile isDigit
  if value < 2 ^ 63 then ⟨value, false, stop⟩ else ⟨2 ^ 63 - 1, true, stop⟩

/-- The length of the prefix `diff=` or `d=` of a text, zero without one. -/
def requestPrefix (p : Bytes) : Nat :=
  if p.take 5 = [100, 105, 102, 102, 61] then 5 else if p.take 2 = [100, 61] then 2 else 0

/-- `token_end`, the text behind the token at `p`. -/
def passTokenEnd (p : Bytes) : Bytes := p.dropWhile fun c => !isPassSeparator c

/-- The token at `p`. -/
def passTokenAt (p : Bytes) : Bytes := p.takeWhile fun c => !isPassSeparator c

theorem passTokenAt_append (p : Bytes) : passTokenAt p ++ passTokenEnd p = p :=
  List.takeWhile_append_dropWhile

/-- Each round of the loops passes a byte. -/
theorem length_passTokenEnd_lt {p q : Bytes} (hq : p.dropWhile isPassSeparator = q)
    (hne : q ≠ []) : (passTokenEnd q).length < p.length := by
  obtain ⟨c, rest, rfl⟩ := List.exists_cons_of_ne_nil hne
  have hc : isPassSeparator c = false := by
    have hhead := List.head?_dropWhile_not isPassSeparator p
    rw [hq] at hhead
    simpa using hhead
  have hskip : passTokenEnd (c :: rest) = rest.dropWhile fun c => !isPassSeparator c := by
    simp [passTokenEnd, hc]
  have hrest : (rest.dropWhile fun c => !isPassSeparator c).length ≤ rest.length :=
    (List.dropWhile_suffix _).length_le
  have hle : (c :: rest).length ≤ p.length := hq ▸ (List.dropWhile_suffix _).length_le
  rw [hskip]
  exact lt_of_le_of_lt hrest (Nat.lt_of_succ_le hle)

/-- The valid request in the token at `p`, and whether it has the long form. -/
def scanToken (p : Bytes) : Option (Bool × Int) :=
  let digits := p.drop (requestPrefix p)
  if requestPrefix p ≠ 0 ∧ digits.head?.any isDigit then
    let read := strtollDigits digits
    if read.errno = false ∧ read.stop = passTokenEnd p ∧ 0 < read.value then
      some (decide (requestPrefix p = 5), (read.value : Int))
    else none
  else none

/-- The loop of `password_requested_diff` from `p` on. -/
def scanRequestedFrom (p : Bytes) (requested : Int) : Int :=
  match _hp : p.dropWhile isPassSeparator with
  | [] => requested
  | c :: rest =>
    match scanToken (c :: rest) with
    -- the long form returns at once
    | some (true, value) => value
    | some (false, value) => scanRequestedFrom (passTokenEnd (c :: rest)) value
    | none => scanRequestedFrom (passTokenEnd (c :: rest)) requested
termination_by p.length
decreasing_by all_goals exact length_passTokenEnd_lt _hp (List.cons_ne_nil _ _)

/-- `password_requested_diff` as the source walks over the password. -/
def scanRequestedDiff (pass : Bytes) : Int := scanRequestedFrom pass 0

/-- The prefix `diff=` or `d=` in either case. -/
def hasRequestPrefix (p : Bytes) : Bool :=
  (p.take 5).map tolower = [100, 105, 102, 102, 61] ∨ (p.take 2).map tolower = [100, 61]

/-- The loop of `password_diff_token_ignored` from `p` on. -/
def scanSeenFrom (p : Bytes) : Bool :=
  match _hp : p.dropWhile isPassSeparator with
  | [] => false
  | c :: rest =>
    if hasRequestPrefix (c :: rest) then true else scanSeenFrom (passTokenEnd (c :: rest))
termination_by p.length
decreasing_by exact length_passTokenEnd_lt _hp (List.cons_ne_nil _ _)

/-- `password_diff_token_ignored` -/
def passwordDiffTokenIgnored (pass : Bytes) : Bool :=
  scanSeenFrom pass && scanRequestedDiff pass == 0

/-! ### Tokens -/

/-- The tokens of a password: what stands between separators and is not empty. -/
def passTokens (pass : Bytes) : List Bytes :=
  (pass.splitOnP isPassSeparator).filter (· ≠ [])

/-- A byte or the end of the text that no token goes past. -/
def AtPassSeparator (e : Bytes) : Prop := ∀ c ∈ e.head?, isPassSeparator c = true

theorem passTokenEnd_at (p : Bytes) : AtPassSeparator (passTokenEnd p) := by
  intro c hc
  have hhead := List.head?_dropWhile_not (fun c => !isPassSeparator c) p
  rw [show (p.dropWhile fun c => !isPassSeparator c).head? = some c from hc] at hhead
  simpa using hhead

theorem not_separator_of_mem_passTokenAt {p : Bytes} {c : UInt8} (hc : c ∈ passTokenAt p) :
    isPassSeparator c = false := by
  have hkeep := List.mem_takeWhile_imp hc
  simpa using hkeep

theorem passTokens_separator {c : UInt8} (hc : isPassSeparator c = true) (p : Bytes) :
    passTokens (c :: p) = passTokens p := by
  simp [passTokens, List.splitOnP_cons_eq_if_modifyHead, hc]

theorem passTokens_dropWhile (p : Bytes) :
    passTokens (p.dropWhile isPassSeparator) = passTokens p := by
  induction p with
  | nil => rfl
  | cons c p ih =>
    by_cases hc : isPassSeparator c = true
    · rw [List.dropWhile_cons_of_pos hc, ih, passTokens_separator hc]
    · rw [List.dropWhile_cons_of_neg hc]

/-- One token after another. -/
theorem passTokens_append {token e : Bytes} (hne : token ≠ [])
    (htoken : ∀ c ∈ token, isPassSeparator c = false) (he : AtPassSeparator e) :
    passTokens (token ++ e) = token :: passTokens e := by
  rcases e with - | ⟨c, e⟩
  · simp [passTokens, List.splitOnP_eq_singleton htoken, hne]
  · have hc : isPassSeparator c = true := he c rfl
    rw [passTokens_separator hc]
    simp [passTokens, List.splitOnP_append_cons_of_forall_mem htoken c hc, hne]

/-- **The tokens as both loops find them.** -/
theorem passTokens_eq (p : Bytes) :
    passTokens p =
      match p.dropWhile isPassSeparator with
      | [] => []
      | c :: rest => passTokenAt (c :: rest) :: passTokens (passTokenEnd (c :: rest)) := by
  rw [← passTokens_dropWhile]
  rcases hq : p.dropWhile isPassSeparator with - | ⟨c, rest⟩
  · rfl
  · have hc : isPassSeparator c = false := by
      have hhead := List.head?_dropWhile_not isPassSeparator p
      rw [hq] at hhead
      simpa using hhead
    have hne : passTokenAt (c :: rest) ≠ [] := by
      simp [passTokenAt, hc]
    show passTokens (c :: rest) = _
    conv_lhs => rw [← passTokenAt_append (c :: rest)]
    exact passTokens_append hne (fun _ => not_separator_of_mem_passTokenAt) (passTokenEnd_at _)

/-! ### What a token says -/

/-- The value of a `diff=` token. -/
def longRequest (token : Bytes) : Option Int :=
  if token.take 5 = [100, 105, 102, 102, 61] then tokenValue (token.drop 5) else none

/-- The value of a `d=` token. -/
def shortRequest (token : Bytes) : Option Int :=
  if token.take 2 = [100, 61] then tokenValue (token.drop 2) else none

/-- A word without separators starts the text where it starts the token. -/
theorem map_take_append_eq_iff {f : UInt8 → UInt8} (n : Nat) (token word : Bytes) {e : Bytes}
    (hf : ∀ c, isPassSeparator c = true → isPassSeparator (f c) = true)
    (hword : ∀ c ∈ word, isPassSeparator c = false) (hlen : word.length = n)
    (he : AtPassSeparator e) :
    ((token ++ e).take n).map f = word ↔ (token.take n).map f = word := by
  rcases le_or_gt n token.length with hle | hlt
  · rw [List.take_append_of_le_length hle]
  · rcases e with - | ⟨c, e⟩
    · rw [List.append_nil]
    · -- past the token there is a separator, and before it too little
      constructor
      · intro heq
        have hmem : f c ∈ ((token ++ c :: e).take n).map f := by
          refine List.mem_map_of_mem (List.mem_take_iff_getElem.mpr ⟨token.length, ?_, ?_⟩)
          · simp only [List.length_append, List.length_cons]
            omega
          · simp
        have hsep := hword _ (heq ▸ hmem)
        rw [hf c (he c rfl)] at hsep
        exact absurd hsep (by decide)
      · intro heq
        have hshort := congrArg List.length heq
        simp only [List.length_map, List.length_take, hlen] at hshort
        omega

theorem tolower_separator (c : UInt8) (hc : isPassSeparator c = true) :
    isPassSeparator (tolower c) = true := by
  simp only [isPassSeparator, Bool.or_eq_true, beq_iff_eq] at hc
  rcases hc with ((rfl | rfl) | rfl) | rfl <;> rfl

theorem hasRequestPrefix_append (token : Bytes) {e : Bytes} (he : AtPassSeparator e) :
    hasRequestPrefix (token ++ e) = hasRequestPrefix token := by
  have hlong := map_take_append_eq_iff 5 token [100, 105, 102, 102, 61] tolower_separator
    (by simp [isPassSeparator]) rfl he
  have hshort := map_take_append_eq_iff 2 token [100, 61] tolower_separator
    (by simp [isPassSeparator]) rfl he
  simp only [hasRequestPrefix, hlong, hshort]

theorem requestPrefix_append {token e : Bytes} (he : AtPassSeparator e) :
    requestPrefix (token ++ e) = requestPrefix token := by
  have hlong := map_take_append_eq_iff (f := id) 5 token [100, 105, 102, 102, 61] (fun _ => id)
    (by simp [isPassSeparator]) rfl he
  have hshort := map_take_append_eq_iff (f := id) 2 token [100, 61] (fun _ => id)
    (by simp [isPassSeparator]) rfl he
  simp only [List.map_id] at hlong hshort
  simp only [requestPrefix, hlong, hshort]

/-- A separator is no digit. -/
theorem AtPassSeparator.not_digit {e : Bytes} (he : AtPassSeparator e) :
    e.head?.any isDigit = false := by
  rcases e with - | ⟨c, e⟩
  · rfl
  · have hc : isPassSeparator c = true := he c rfl
    simp only [isPassSeparator, Bool.or_eq_true, beq_iff_eq] at hc
    rcases hc with ((rfl | rfl) | rfl) | rfl <;> rfl

/-- The digits end with the token when it has nothing else. -/
theorem dropWhile_isDigit_append {digits e : Bytes} (he : AtPassSeparator e) :
    (digits ++ e).dropWhile isDigit = e ↔ digits.all isDigit = true := by
  induction digits with
  | nil =>
    have hstay : e.dropWhile isDigit = e := by
      rcases e with - | ⟨c, e⟩
      · rfl
      · exact List.dropWhile_cons_of_neg (by simpa using he.not_digit)
    simp [hstay]
  | cons d digits ih =>
    by_cases hd : isDigit d = true
    · simp [hd, ih]
    · simp only [List.cons_append, List.dropWhile_cons_of_neg hd, List.all_cons, hd,
        Bool.false_and, Bool.false_eq_true, iff_false]
      intro heq
      have hlen := congrArg List.length heq
      simp only [List.length_cons, List.length_append] at hlen
      omega

/-- `strtoll` at a token of digits. -/
theorem strtollDigits_of_all {digits e : Bytes} (hall : digits.all isDigit = true)
    (he : AtPassSeparator e) :
    strtollDigits (digits ++ e) =
      if numeral 10 (digits.map (· - 48)) < 2 ^ 63 then
        ⟨numeral 10 (digits.map (· - 48)), false, e⟩
      else ⟨2 ^ 63 - 1, true, e⟩ := by
  have hdrop : (digits ++ e).dropWhile isDigit = e := (dropWhile_isDigit_append he).mpr hall
  have htake : (digits ++ e).takeWhile isDigit = digits := by
    have hsplit := List.takeWhile_append_dropWhile (p := isDigit) (l := digits ++ e)
    rw [hdrop] at hsplit
    exact List.append_cancel_right hsplit
  unfold strtollDigits
  rw [htake, hdrop]

/-- **A number that has to reach to the end of its token.** -/
theorem strtollDigits_append {digits e : Bytes} (he : AtPassSeparator e) :
    (if (digits ++ e).head?.any isDigit then
      if (strtollDigits (digits ++ e)).errno = false ∧
          (strtollDigits (digits ++ e)).stop = e ∧ 0 < (strtollDigits (digits ++ e)).value then
        some ((strtollDigits (digits ++ e)).value : Int)
      else none
    else none) = tokenValue digits := by
  unfold tokenValue
  by_cases hall : digits.all isDigit = true
  · rcases digits with - | ⟨d, rest⟩
    · -- no digit where the number should start
      rw [List.nil_append, he.not_digit]
      rfl
    · have hd : isDigit d = true := by
        rw [List.all_cons, Bool.and_eq_true] at hall
        exact hall.1
      have htoken : d :: rest ≠ [] ∧ (d :: rest).all isDigit = true :=
        ⟨List.cons_ne_nil _ _, hall⟩
      have hhead : ((d :: rest) ++ e).head?.any isDigit = true := by
        simpa using hd
      rw [strtollDigits_of_all hall he, if_pos htoken, if_pos hhead]
      generalize numeral 10 ((d :: rest).map (· - 48)) = value
      by_cases hrange : value < 2 ^ 63
      · rw [if_pos hrange]
        simp only [true_and, hrange, and_true]
      · rw [if_neg hrange]
        simp only [Bool.true_eq_false, false_and, hrange, and_false]
        rfl
  · have hstop : (strtollDigits (digits ++ e)).stop ≠ e := by
      have hends : (strtollDigits (digits ++ e)).stop = (digits ++ e).dropWhile isDigit := by
        unfold strtollDigits
        dsimp only
        split_ifs <;> rfl
      rw [hends]
      exact mt (dropWhile_isDigit_append he).mp hall
    rw [if_neg fun h : digits ≠ [] ∧ _ => hall h.2]
    simp only [hstop, false_and, and_false, if_false, ite_self]

theorem le_length_of_take {token word : Bytes} {n : Nat} (htake : token.take n = word)
    (hword : word.length = n) : n ≤ token.length := by
  rw [← hword, ← htake, List.length_take]
  exact Nat.min_le_right _ _

/-- The token as it is cut out says what it says where it stands. -/
theorem scanToken_append (token : Bytes) {e : Bytes} (htoken : passTokenEnd (token ++ e) = e)
    (he : AtPassSeparator e) : scanToken (token ++ e) = tokenRequest token := by
  unfold scanToken tokenRequest
  rw [requestPrefix_append he, htoken]
  by_cases hlong : token.take 5 = [100, 105, 102, 102, 61]
  · have hpre : requestPrefix token = 5 := if_pos hlong
    have hdrop : (token ++ e).drop 5 = token.drop 5 ++ e :=
        List.drop_append_of_le_length (le_length_of_take hlong rfl)
    rw [hpre, hdrop, if_pos hlong, ← strtollDigits_append he]
    split_ifs <;> simp_all
  · rw [if_neg hlong]
    by_cases hshort : token.take 2 = [100, 61]
    · have hpre : requestPrefix token = 2 := by
        rw [requestPrefix, if_neg hlong, if_pos hshort]
      have hdrop : (token ++ e).drop 2 = token.drop 2 ++ e :=
          List.drop_append_of_le_length (le_length_of_take hshort rfl)
      rw [hpre, hdrop, if_pos hshort, ← strtollDigits_append he]
      split_ifs <;> simp_all
    · have hpre : requestPrefix token = 0 := by
        rw [requestPrefix, if_neg hlong, if_neg hshort]
      rw [hpre, if_neg hshort]
      exact if_neg fun h => h.1 rfl

/-! ### The loops over the tokens -/

theorem scanToken_eq (p : Bytes) : scanToken p = tokenRequest (passTokenAt p) := by
  have hcut := scanToken_append (passTokenAt p)
    (by rw [passTokenAt_append]) (passTokenEnd_at p)
  rwa [passTokenAt_append] at hcut

theorem hasRequestPrefix_eq (p : Bytes) :
    hasRequestPrefix p = hasRequestPrefix (passTokenAt p) := by
  have hcut := hasRequestPrefix_append (passTokenAt p) (passTokenEnd_at p)
  rwa [passTokenAt_append] at hcut

/-- `password_requested_diff` goes over the tokens. -/
theorem scanRequestedFrom_eq (p : Bytes) (requested : Int) :
    scanRequestedFrom p requested = requestedDiff requested (passTokens p) := by
  fun_induction scanRequestedFrom p requested with
  | case1 p requested hp =>
    rw [passTokens_eq, hp]
    rfl
  | case2 p requested c rest hp value hscan =>
    rw [passTokens_eq, hp]
    rw [scanToken_eq] at hscan
    simp only [requestedDiff, hscan]
  | case3 p requested c rest hp value hscan ih | case4 p requested c rest hp hscan ih =>
    rw [passTokens_eq, hp]
    rw [scanToken_eq] at hscan
    simp only [requestedDiff, hscan]
    exact ih

theorem scanRequestedDiff_eq (pass : Bytes) : scanRequestedDiff pass = passwordRequestedDiff pass :=
  scanRequestedFrom_eq pass 0

/-- `password_diff_token_ignored` goes over the same tokens. -/
theorem scanSeenFrom_eq (p : Bytes) : scanSeenFrom p = (passTokens p).any hasRequestPrefix := by
  fun_induction scanSeenFrom p with
  | case1 p hp =>
    rw [passTokens_eq, hp]
    rfl
  | case2 p c rest hp hseen =>
    rw [passTokens_eq, hp]
    rw [hasRequestPrefix_eq] at hseen
    simp only [List.any_cons, hseen, Bool.true_or]
  | case3 p c rest hp hseen ih =>
    rw [passTokens_eq, hp]
    rw [hasRequestPrefix_eq, Bool.not_eq_true] at hseen
    simp only [List.any_cons, hseen, Bool.false_or]
    exact ih

/-! ### Precedence -/

/-- A token has one form only. -/
theorem shortRequest_of_long {token : Bytes} (h : token.take 5 = [100, 105, 102, 102, 61]) :
    shortRequest token = none := by
  have htwo : token.take 2 = [100, 105] := by
    have htake : (token.take 5).take 2 = token.take 2 := by
      rw [List.take_take]
      rfl
    rw [← htake, h]
    rfl
  rw [shortRequest, htwo]
  rfl

theorem tokenRequest_eq (token : Bytes) :
    tokenRequest token =
      match longRequest token with
      | some value => some (true, value)
      | none => (shortRequest token).map fun value => (false, value) := by
  unfold tokenRequest
  by_cases hlong : token.take 5 = [100, 105, 102, 102, 61]
  · rw [if_pos hlong, shortRequest_of_long hlong, longRequest, if_pos hlong]
    cases tokenValue (token.drop 5) <;> rfl
  · rw [if_neg hlong, longRequest, if_neg hlong, shortRequest]
    split_ifs <;> rfl

/-- **Precedence**: the first long form, or else the last short one. -/
theorem requestedDiff_eq (tokens : List Bytes) (requested : Int) :
    requestedDiff requested tokens =
      ((tokens.filterMap longRequest).head?.or (tokens.filterMap shortRequest).getLast?).getD
        requested := by
  induction tokens generalizing requested with
  | nil => rfl
  | cons token tokens ih =>
    rw [requestedDiff, tokenRequest_eq]
    rcases hlong : longRequest token with - | value
    · rcases hshort : shortRequest token with - | value
      · show requestedDiff requested tokens = _
        rw [ih, List.filterMap_cons_none hlong, List.filterMap_cons_none hshort]
      · -- a later short form replaces this one
        show requestedDiff value tokens = _
        rw [ih, List.filterMap_cons_none hlong, List.filterMap_cons_some hshort,
          List.getLast?_cons]
        cases (tokens.filterMap longRequest).head? <;> simp
    · show value = _
      rw [List.filterMap_cons_some hlong]
      rfl

theorem longRequest_pos {token : Bytes} {value : Int} (h : longRequest token = some value) :
    0 < value := by
  unfold longRequest at h
  split_ifs at h
  exact tokenValue_pos h

theorem shortRequest_pos {token : Bytes} {value : Int} (h : shortRequest token = some value) :
    0 < value := by
  unfold shortRequest at h
  split_ifs at h
  exact tokenValue_pos h

/-- Zero stands for no request. -/
theorem passwordRequestedDiff_eq_zero_iff (pass : Bytes) :
    passwordRequestedDiff pass = 0 ↔
      ∀ token ∈ passTokens pass, longRequest token = none ∧ shortRequest token = none := by
  show requestedDiff 0 (passTokens pass) = 0 ↔ _
  rw [requestedDiff_eq]
  have hpos : ∀ value ∈ ((passTokens pass).filterMap longRequest).head?.or
      ((passTokens pass).filterMap shortRequest).getLast?, 0 < value := by
    intro value hvalue
    rcases Option.or_eq_some_iff.mp hvalue with hlong | ⟨-, hshort⟩
    · obtain ⟨token, -, htoken⟩ := List.mem_filterMap.mp (List.mem_of_head? hlong)
      exact longRequest_pos htoken
    · obtain ⟨token, -, htoken⟩ := List.mem_filterMap.mp (List.mem_of_getLast? hshort)
      exact shortRequest_pos htoken
  have hnone : ((passTokens pass).filterMap longRequest).head?.or
      ((passTokens pass).filterMap shortRequest).getLast? = none ↔
        ∀ token ∈ passTokens pass, longRequest token = none ∧ shortRequest token = none := by
    simp only [Option.or_eq_none_iff, List.head?_eq_none_iff, List.getLast?_eq_none_iff,
      List.filterMap_eq_nil_iff]
    exact forall₂_and.symm
  rw [← hnone]
  generalize ((passTokens pass).filterMap longRequest).head?.or
    ((passTokens pass).filterMap shortRequest).getLast? = found at hpos ⊢
  cases found with
  | none => simp
  | some value => simpa using (hpos value rfl).ne'

/-- **The two scanners of a password.**  `password_requested_diff` returns the first valid
long form of its tokens, or else the last valid short one, or else zero, and
`apply_password_diff` brings that into the bounds for a client with no rental floor.
`password_diff_token_ignored` is true when one of the same tokens starts like a request,
in any case, and none is valid. -/
theorem password_scanners (pass : Bytes) :
    (scanRequestedDiff pass =
      (((passTokens pass).filterMap longRequest).head?.or
        ((passTokens pass).filterMap shortRequest).getLast?).getD 0) ∧
    (passwordDiffTokenIgnored pass = true ↔
      (∃ token ∈ passTokens pass, hasRequestPrefix token = true) ∧
        ∀ token ∈ passTokens pass, longRequest token = none ∧ shortRequest token = none) ∧
    (∀ (c : DiffConf) (client : DiffClient), client.rentalDiff = false →
      scanRequestedDiff pass ≠ 0 →
        (c.applyPasswordDiff client pass).diff =
          c.clampRequestedDiff (scanRequestedDiff pass)) := by
  rw [scanRequestedDiff_eq]
  refine ⟨requestedDiff_eq _ 0, ?_, ?_⟩
  · rw [passwordDiffTokenIgnored, scanSeenFrom_eq, scanRequestedDiff_eq, Bool.and_eq_true,
      List.any_eq_true, beq_iff_eq, passwordRequestedDiff_eq_zero_iff]
  · intro c client hrental hne
    have hpos : 0 < passwordRequestedDiff pass :=
      lt_of_le_of_ne (requestedDiff_nonneg le_rfl) hne.symm
    simp [DiffConf.applyPasswordDiff, DiffConf.clampRequestedDiff, hpos, hrental, c.mindiff_ne]

/-- `password_requested_diff` does not know the bounds: with `mindiff` 8 it still returns 1
for `d=1`. -/
theorem password_requested_not_clamped :
    scanRequestedDiff [100, 61, 49] ≠
      (readDiffConf (some 8) none none none [] [] false false false false).clampRequestedDiff
        (scanRequestedDiff [100, 61, 49]) := by
  rw [scanRequestedDiff_eq]
  decide

end CashStratum
