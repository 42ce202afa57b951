/-
CashStratum/AuthLog.lean

The names of a client in the log (`LOGMSGSIZ` and `logmsg`; the messages of `parse_authorise`,
`generate_user`, `client_auth` and what they call).

A message is cut at every 510 bytes, and each piece becomes a line with a stamp of its own.
What a reader of the log finds in the line is in the piece, as no stamp holds the first letter
of a message about blocks (`classify_logLine`).  The check of a worker name lets every
printable text pass but for a slash, so the piece may hold such a message.
-/
import CashStratum.Authorising
import CashStratum.PoolEvents

namespace CashStratum

/-! ### The logger -/

/-- What a line with up to `DEFLOGBUFSIZ` bytes holds of a message. -/
def logPieceSize : Nat := 512 - 2

/-- The loop of `LOGMSGSIZ`: the pieces of what is left of a message. -/
def logPieces (buf : Bytes) : List Bytes :=
  if _h : buf = [] then [] else buf.take logPieceSize :: logPieces (buf.drop logPieceSize)
termination_by buf.length
decreasing_by
  have hpos : 0 < buf.length := List.length_pos_iff.mpr _h
  simp only [List.length_drop, logPieceSize]
  omega

/-- A short message is one piece. -/
theorem logPieces_of_length_le {buf : Bytes} (hne : buf ≠ [])
    (h : buf.length ≤ logPieceSize) : logPieces buf = [buf] := by
  rw [logPieces, dif_neg hne, List.take_of_length_le h, List.drop_eq_nil_of_le h, logPieces,
    dif_pos rfl]

/-- `struct tm`, and the milliseconds. -/
structure Tm where
  year : Nat
  mon : Nat
  mday : Nat
  hour : Nat
  min : Nat
  sec : Nat
  ms : Nat

/-- `%0*d` -/
def formatPadded (width n : Nat) : Bytes :=
  List.replicate (width - (formatNat n).length) 48 ++ formatNat n

/-- `get_timestamp` -/
def getTimestamp (tm : Tm) : Bytes :=
  ascii "[" ++ formatNat (tm.year + 1900) ++ ascii "-" ++ formatPadded 2 (tm.mon + 1) ++
    ascii "-" ++ formatPadded 2 tm.mday ++ ascii " " ++ formatPadded 2 tm.hour ++ ascii ":" ++
    formatPadded 2 tm.min ++ ascii ":" ++ formatPadded 2 tm.sec ++ ascii "." ++
    formatPadded 3 tm.ms ++ ascii "]"

/-- The line that `logmsg` writes for a piece, at a level below that of errors. -/
def logLine (tm : Tm) (piece : Bytes) : Bytes := getTimestamp tm ++ ascii " " ++ piece

/-- A byte that is no capital letter. -/
def NoCapital (c : UInt8) : Prop := c ≤ 58 ∨ 91 ≤ c

instance : DecidablePred NoCapital := fun c => inferInstanceAs (Decidable (c ≤ 58 ∨ 91 ≤ c))

/-- The stamp without its closing bracket. -/
def stampFields (tm : Tm) : Bytes := (getTimestamp tm).dropLast

theorem getTimestamp_eq (tm : Tm) : getTimestamp tm = stampFields tm ++ ascii "]" := by
  have hclose : ascii "]" = [93] := by decide
  rw [stampFields, getTimestamp, hclose, List.dropLast_concat]

/-- What holds of the digits and of the marks between them holds inside a stamp. -/
theorem forall_mem_stampFields {P : UInt8 → Prop} (hdigit : ∀ c, 48 ≤ c ∧ c ≤ 57 → P c)
    (hmark : ∀ c ∈ ascii "[- :.", P c) (tm : Tm) : ∀ c ∈ stampFields tm, P c := by
  have hmarks : ascii "[- :." =
      ascii "[" ++ (ascii "-" ++ (ascii " " ++ (ascii ":" ++ ascii "."))) := by decide
  have hclose : ascii "]" = [93] := by decide
  have hnat : ∀ n, ∀ c ∈ formatNat n, P c := fun n c hc => hdigit c (formatNat_digit hc)
  have hfield : ∀ w n, ∀ c ∈ formatPadded w n, P c := by
    intro w n c hc
    obtain hc | hc := List.mem_append.mp hc
    · exact hdigit c (by rw [List.eq_of_mem_replicate hc]; decide)
    · exact hnat n c hc
  simp only [hmarks, List.forall_mem_append] at hmark
  obtain ⟨hopen, hdash, hspace, hcolon, hdot⟩ := hmark
  rw [stampFields, getTimestamp, hclose, List.dropLast_concat]
  simp only [List.forall_mem_append]
  exact ⟨⟨⟨⟨⟨⟨⟨⟨⟨⟨⟨⟨⟨hopen, hnat _⟩, hdash⟩, hfield _ _⟩, hdash⟩, hfield _ _⟩, hspace⟩, hfield _ _⟩,
    hcolon⟩, hfield _ _⟩, hcolon⟩, hfield _ _⟩, hdot⟩, hfield _ _⟩

set_option maxRecDepth 20000 in
theorem getTimestamp_noCapital (tm : Tm) : ∀ c ∈ getTimestamp tm, NoCapital c := by
  rw [getTimestamp_eq, List.forall_mem_append]
  refine ⟨forall_mem_stampFields (fun c hc => ?_) (by decide) tm, by decide⟩
  exact Or.inl (UInt8.le_trans hc.2 (by decide))

set_option maxRecDepth 20000 in
/-- The stamp is nothing to a reader of the log. -/
theorem classify_logLine (tm : Tm) (piece : Bytes) (c : Classifier) (w : World) :
    c.classify w (logLine tm piece) = c.classify w piece := by
  have hstamp : ∀ b ∈ getTimestamp tm ++ ascii " ", NoCapital b := by
    rw [List.forall_mem_append]
    exact ⟨getTimestamp_noCapital tm, by decide⟩
  apply Classifier.classify_append
  · exact fun hB => absurd (hstamp 66 hB) (by decide)
  · exact fun hS => absurd (hstamp 83 hS) (by decide)

/-! ### The messages -/

/-- The names of a client that reach the log when it authorises: those of its connection, which
the pool makes, and its worker name. -/
structure ClientNames where
  identity : Bytes
  address : Bytes
  workername : Bytes
  /-- The user name in the worker name, as `generate_user` cuts it. -/
  username : Bytes

/-- What a classified address is called. -/
inductive AddressKind where
  | cashaddrP2pkh
  | legacyP2pkh
  | cashaddrP2sh
  | legacyP2sh

/-- The end of the message about a valid address. -/
def AddressKind.text : AddressKind → Bytes
  | .cashaddrP2pkh => ascii " (P2PKH, CashAddr)"
  | .legacyP2pkh => ascii " (P2PKH, legacy)"
  | .cashaddrP2sh => ascii " (P2SH, CashAddr)"
  | .legacyP2sh => ascii " (P2SH, legacy)"

/-- The messages of the authorisation with the worker name or the user name in them, and what
else they tell. -/
inductive AuthMessage where
  | validAddress (kind : AddressKind)
  | invalidAddress
  | validationFailed (url port : Bytes)
  | refused (maxusers : Int)
  | noTxn
  | failedValidation
  | poolFallback
  | added (btcaddress : Bool)
  | rentalDiff
  | override (pattern : Bytes) (diff : Int)
  | rateLimited
  | authorisedToProxy (proxyid subproxyid : Int)
  | authorised (diff : Int)
  | failedThrottled
  | failed
  | noUserwb (clientId wbId : Int)

/-- The text of a message. -/
def AuthMessage.text (chain : Chain) (names : ClientNames) : AuthMessage → Bytes
  -- validate_address
  | .validAddress kind => ascii "Valid BCH address " ++ names.username ++ kind.text
  | .invalidAddress => ascii "Invalid BCH address: " ++ names.username
  -- generator_checkaddr
  | .validationFailed url port =>
    ascii "Address validation failed for " ++ names.username ++ ascii " via " ++ url ++
      ascii ":" ++ port
  -- __get_create_user
  | .refused maxusers =>
    ascii "Refusing to create user " ++ canon ++ ascii " with maxusers " ++
      formatInt maxusers ++ ascii " reached"
  -- generate_user
  | .noTxn =>
    ascii "Address " ++ canon ++
      ascii " validated but address_to_txn returned 0 bytes, treating as not an address"
  | .failedValidation =>
    ascii "Username " ++ canon ++ ascii " looks like a BCH address but failed validation"
  | .poolFallback =>
    ascii "User " ++ canon ++ ascii " is not a BCH address, mining to pool address"
  | .added btcaddress =>
    ascii "Added new user " ++ canon ++
      if btcaddress then ascii " as address based registration" else []
  -- parse_authorise
  | .rentalDiff =>
    ascii "Client " ++ names.identity ++ ascii " workername '" ++ names.workername ++
      ascii "' skipping mindiff_overrides pattern loop, rental difficulty already applied"
  | .override pattern diff =>
    ascii "Client " ++ names.identity ++ ascii " workername '" ++ names.workername ++
      ascii "' matched pattern '" ++ pattern ++ ascii "', applied difficulty " ++ formatInt diff
  | .rateLimited => client ++ ascii " rate limited due to failed auth attempts"
  -- client_auth
  | .authorisedToProxy proxyid subproxyid =>
    ascii "Authorised client " ++ names.identity ++ ascii " to proxy " ++ formatInt proxyid ++
      ascii ":" ++ formatInt subproxyid ++ ascii ", worker " ++ names.workername ++
      ascii " as user " ++ user
  | .authorised diff =>
    ascii "Authorised client " ++ names.identity ++ ascii " " ++ names.address ++
      ascii " worker " ++ names.workername ++ ascii " as user " ++ user ++
      ascii " with diff " ++ formatInt diff
  | .failedThrottled => client ++ ascii " failed to authorise as throttled user " ++ user
  | .failed => client ++ ascii " failed to authorise as user " ++ user
  -- update_solo_client
  | .noUserwb clientId wbId =>
    ascii "No userwb to notify client " ++ formatInt clientId ++ ascii " user " ++ user ++
      ascii " of workbase " ++ formatInt wbId
where
  canon : Bytes := canonicaliseUsername chain names.username
  user : Bytes := userKey canon
  client : Bytes :=
    ascii "Client " ++ names.identity ++ ascii " " ++ names.address ++ ascii " worker " ++
      names.workername

/-- The reader of the log takes a message for nothing: every piece of it, in its line, gives no
event and leaves the classifier as it is. -/
def Unnoticed (text : Bytes) : Prop :=
  ∀ piece ∈ logPieces text, ∀ (tm : Tm) (c : Classifier) (w : World),
    c.classify w (logLine tm piece) = (c, none)

/-- **When a client's names stay unnoticed.**  The reader takes a message of the authorisation
for nothing exactly if every piece of it is quiet. -/
theorem unnoticed_iff (chain : Chain) (identity address : Bytes) {useragent : Option Bytes}
    {params : Params} {workername : Bytes} (h : checkAuthorise useragent params = .ok workername) :
    ∃ username, generateUsername workername = some username ∧
      ∀ message : AuthMessage,
        let text := message.text chain { identity, address, workername, username }
        Unnoticed text ↔ ∀ piece ∈ logPieces text, Quiet piece := by
  obtain ⟨username, husername⟩ := checkAuthorise_username h
  refine ⟨username, husername, fun message => ?_⟩
  refine forall₂_congr fun piece _ => ?_
  rw [← Classifier.classify_silent_iff]
  constructor
  · intro hall c w
    rw [← hall ⟨0, 0, 0, 0, 0, 0, 0⟩ c w, classify_logLine]
  · intro hall tm c w
    rw [classify_logLine, hall c w]

theorem unnoticed_iff_rig :
    ∃ username, generateUsername (ascii "rig.1") = some username ∧
      ∀ message : AuthMessage,
        let text := message.text .main
          { identity := ascii "3", address := ascii "10.0.0.7", workername := ascii "rig.1",
            username }
        Unnoticed text ↔ ∀ piece ∈ logPieces text, Quiet piece := by
  have h : checkAuthorise (some (ascii "cpuminer")) (some [.str (ascii "rig.1")]) =
      .ok (ascii "rig.1") := by decide
  exact unnoticed_iff .main (ascii "3") (ascii "10.0.0.7") h

/-- A worker may be named like the message about a block that the node has accepted. -/
theorem accepted_name_noticed :
    ¬ ∀ (chain : Chain) (identity address : Bytes) (useragent : Option Bytes) (params : Params)
        (workername username : Bytes),
        checkAuthorise useragent params = .ok workername →
        generateUsername workername = some username →
        ∀ message : AuthMessage,
          Unnoticed (message.text chain { identity, address, workername, username }) := by
  intro hall
  have h := hall .main (ascii "3") (ascii "10.0.0.7") (some (ascii "cpuminer"))
    (some [.str (ascii "BLOCK ACCEPTED!")]) (ascii "BLOCK ACCEPTED!") (ascii "BLOCK ACCEPTED!")
    (by decide) (by decide) (.added false)
  have htext : AuthMessage.text .main
      { identity := ascii "3", address := ascii "10.0.0.7", workername := ascii "BLOCK ACCEPTED!",
        username := ascii "BLOCK ACCEPTED!" } (.added false) =
      ascii "Added new user BLOCK ACCEPTED!" := by decide
  have hpieces := @logPieces_of_length_le (ascii "Added new user BLOCK ACCEPTED!")
    (by decide) (by decide)
  rw [htext, Unnoticed, hpieces] at h
  have hline := congrArg Prod.snd
    (h _ List.mem_cons_self ⟨126, 0, 1, 0, 0, 0, 0⟩ {} ⟨0, fun _ => [], []⟩)
  revert hline
  decide

end CashStratum
