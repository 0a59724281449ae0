-- The parsers of the MongoDB proxy and mock, over any bytes from client and server. Slicing,
-- indexing and allocating can fail here as they can in Go. The law: no connection crashes, and
-- malformed lengths give the empty answer or close it, just when none comes to a server message
-- shorter than its header, or to an OP_MSG whose first value is a string of length 0.
import Faultbox.GoText

open gopath gotext

namespace faultbox.mongo_parsing

/-! ## Slices -/

/-- `s[lo:hi]`; `none` is a run-time panic, here and below. -/
def slice (s : Bytes) (lo hi : Nat) : Option Bytes :=
  if lo ≤ hi ∧ hi ≤ s.length then some ((s.take hi).drop lo) else none

def littleEndian (s : Bytes) : Nat := s.foldr (fun c n => c.toNat + 256 * n) 0

/-- `binary.LittleEndian.Uint32`. -/
def uint32 (s : Bytes) : Option Nat :=
  if 4 ≤ s.length then some (littleEndian (s.take 4)) else none

/-- `make([]byte, n)`, by its length. -/
def makeBytes (n : Int) : Option Nat := if 0 ≤ n then some n.toNat else none

/-- The first zero from `pos` on, or the end. -/
def cstringEnd (s : Bytes) (pos : Nat) : Nat := pos + ((s.drop pos).takeWhile (· ≠ 0)).length

/-! ## Messages -/

/-- The first element of a document: its key, and its value when that is a string. -/
def parseFirst (doc : Bytes) : Option (Bytes × Bytes) :=
  if doc.length ≤ 4 then some ([], [])
  else
    doc[4]?.bind fun elemType =>
      let pos := cstringEnd doc 5
      if doc.length ≤ pos then some ([], [])
      else
        (slice doc 5 pos).bind fun cmd =>
          let pos := pos + 1
          if elemType = 0x02 then
            if pos + 4 > doc.length then some (cmd, [])
            else
              (slice doc pos doc.length).bind uint32 |>.bind fun strLen =>
                let pos := pos + 4
                if pos + strLen > doc.length then some (cmd, [])
                else (slice doc pos (pos + strLen - 1)).map fun collection => (cmd, collection)
          else some (cmd, [])

/-- The document at `offset`, if all of it is there. -/
def documentAt (body : Bytes) (offset : Nat) : Option (Option Bytes) :=
  if offset + 4 > body.length then some none
  else
    (slice body offset body.length).bind uint32 |>.bind fun bsonLen =>
      if offset + bsonLen > body.length then some none
      else (slice body offset (offset + bsonLen)).map some

def parseOPMSG (body : Bytes) : Option (Bytes × Bytes) :=
  if body.length < 5 then some ([], [])
  else
    body[4]?.bind fun kind =>
      if kind ≠ 0 then some ([], [])
      else
        (documentAt body 5).bind fun doc =>
          match doc with
          | none => some ([], [])
          | some bsonDoc => parseFirst bsonDoc

/-- The mock's copy. -/
def parseOPMSGCmd (body : Bytes) : Option (Bytes × Bytes) := parseOPMSG body

def parseOPQuery (body : Bytes) : Option (Bytes × Option Bytes) :=
  if body.length < 4 then some ([], none)
  else
    (documentAt body (cstringEnd body 4 + 1 + 8)).bind fun doc =>
      match doc with
      | none => some ([], none)
      | some bsonDoc =>
        if bsonDoc.length ≤ 4 then some ([], some bsonDoc)
        else
          let pos := cstringEnd bsonDoc 5
          if bsonDoc.length ≤ pos then some ([], some bsonDoc)
          else (slice bsonDoc 5 pos).map fun cmd => (cmd, some bsonDoc)

/-! ## Connections -/

def opMsgCode : Nat := 2013
def opQueryCode : Nat := 2004

inductive Outcome (α : Type) where
  | panic
  | closed
  | ok (a : α)

/-- An operation that can panic, and one whose failure closes the connection. -/
def Outcome.checked {α β : Type} (o : Option α) (f : α → Outcome β) : Outcome β :=
  match o with
  | none => .panic
  | some a => f a

def Outcome.read {α β : Type} (o : Option α) (f : α → Outcome β) : Outcome β :=
  match o with
  | none => .closed
  | some a => f a

/-- A message of the client: its opcode, its body and what follows. -/
structure Message where
  opCode : Nat
  body : Bytes
  rest : Bytes

def readMessage {β : Type} (client : Bytes) (f : Message → Outcome β) : Outcome β :=
  .read (readFull 16 client) fun p =>
    let msgLen := littleEndian (p.1.take 4)
    if msgLen < 16 ∨ msgLen > 48 * 1024 * 1024 then .closed
    else
      .checked (makeBytes (msgLen - 16)) fun n =>
        .read (readFull n p.2) fun q => f ⟨littleEndian ((p.1.drop 12).take 4), q.1, q.2⟩

/-- The bytes that the two sides will still send to the proxy. -/
structure Streams where
  client : Bytes
  server : Bytes

/-- The answer of the server, which is passed on. -/
def forward (client server : Bytes) : Outcome Streams :=
  .read (readFull 16 server) fun p =>
    .checked (makeBytes (littleEndian (p.1.take 4) - 16)) fun n =>
      .read (readFull n p.2) fun q => .ok ⟨client, q.2⟩

/-- A turn of the proxy's loop; `handled` is what `checkRules` says. -/
def handleConn (s : Streams) (handled : Bool) : Outcome Streams :=
  readMessage s.client fun m =>
    if m.opCode = opMsgCode then
      .checked (parseOPMSG m.body) fun p =>
        if p.1 ≠ [] ∧ handled = true then .ok ⟨m.rest, s.server⟩ else forward m.rest s.server
    else forward m.rest s.server

/-- A turn of the mock's loop. -/
def handleMongoMockConn (client : Bytes) : Outcome Bytes :=
  readMessage client fun m =>
    if m.opCode = opQueryCode then .checked (parseOPQuery m.body) fun _ => .ok m.rest
    else if m.opCode ≠ opMsgCode then .ok m.rest
    else .checked (parseOPMSGCmd m.body) fun _ => .ok m.rest

/-- Turn after turn. -/
def turns {σ α : Type} (turn : σ → α → Outcome σ) : σ → List α → Outcome σ
  | s, [] => .ok s
  | s, a :: as =>
    match turn s a with
    | .panic => .panic
    | .closed => .closed
    | .ok t => turns turn t as

/-! ## The parsers -/

section parsers

variable {s doc body : Bytes} {lo hi offset : Nat}

theorem slice_eq (h : lo ≤ hi) (h' : hi ≤ s.length) : slice s lo hi = some ((s.take hi).drop lo) :=
  if_pos ⟨h, h'⟩

theorem uint32_from (h : offset + 4 ≤ s.length) :
    (slice s offset s.length).bind uint32 = some (littleEndian ((s.drop offset).take 4)) := by
  rw [slice_eq (by omega) le_rfl, List.take_length, Option.bind_some, uint32,
    if_pos (by rw [List.length_drop]; omega)]

theorem le_cstringEnd (s : Bytes) (pos : Nat) : pos ≤ cstringEnd s pos := Nat.le_add_right _ _

/-- The document is read without a panic, and is what the length says. -/
theorem documentAt_eq (body : Bytes) (offset : Nat) : documentAt body offset = some
    (if offset + 4 > body.length ∨
        offset + littleEndian ((body.drop offset).take 4) > body.length then none
      else some ((body.drop offset).take (littleEndian ((body.drop offset).take 4)))) := by
  unfold documentAt
  split
  · rename_i h
    rw [if_pos (.inl h)]
  · rename_i h
    rw [uint32_from (by omega), Option.bind_some]
    split
    · rename_i hl
      rw [if_pos (.inr hl)]
    · rename_i hl
      rw [slice_eq (by omega) (by omega), if_neg (not_or.mpr ⟨h, hl⟩), List.drop_take]
      simp

theorem parseOPQuery_survives (body : Bytes) : (parseOPQuery body).isSome = true := by
  unfold parseOPQuery
  rw [documentAt_eq]
  split
  · rfl
  · rw [Option.bind_some]
    split
    · rfl
    · rename_i bsonDoc _
      split
      · rfl
      · dsimp only
        split
        · rfl
        · rw [slice_eq (le_cstringEnd _ _) (by omega)]
          rfl

/-- What `parseFirst` does with the type and the bytes of the first element. -/
def element (elemType : UInt8) (rest : Bytes) : Option (Bytes × Bytes) :=
  match rest.dropWhile (· ≠ 0) with
  | [] => some ([], [])
  | _ :: value =>
    let cmd := rest.takeWhile (· ≠ 0)
    let strLen := littleEndian (value.take 4)
    if elemType = 0x02 then
      if value.length < 4 then some (cmd, [])
      else if value.length < 4 + strLen then some (cmd, [])
      else if strLen = 0 then none
      else some (cmd, (value.drop 4).take (strLen - 1))
    else some (cmd, [])

theorem parseFirst_eq {len rest : Bytes} (hl : len.length = 4) (elemType : UInt8) :
    parseFirst (len ++ elemType :: rest) = element elemType rest := by
  generalize hd : len ++ elemType :: rest = doc
  have hlen : doc.length = 5 + rest.length := by
    rw [← hd, List.length_append, List.length_cons]
    omega
  have htype : doc[4]? = some elemType := by
    rw [← hd, List.getElem?_append_right (by omega), hl]
    rfl
  have hdrop (k : Nat) : doc.drop (5 + k) = rest.drop k := by
    have h5 : doc.drop 5 = rest := by
      rw [← hd, List.append_cons]
      exact List.drop_left' (by simp [hl])
    rw [← List.drop_drop, h5]
  have hend : cstringEnd doc 5 = 5 + (rest.takeWhile (· ≠ 0)).length := by
    rw [cstringEnd, hdrop 0]
    rfl
  have hkey := List.takeWhile_append_dropWhile (p := fun c : UInt8 => decide (c ≠ 0)) (l := rest)
  unfold parseFirst element
  rw [if_neg (by omega), htype, Option.bind_some]
  dsimp only
  rw [hend]
  cases hv : rest.dropWhile (· ≠ 0) with
  | nil =>
    rw [hv, List.append_nil] at hkey
    rw [if_pos (by rw [hkey]; omega)]
  | cons c value =>
    rw [hv] at hkey
    generalize rest.takeWhile (· ≠ 0) = key at hkey ⊢
    subst hkey
    rw [List.length_append, List.length_cons] at hlen
    have hcmd : (doc.take (5 + key.length)).drop 5 = key := by
      rw [List.drop_take, hdrop 0, List.drop_zero, Nat.add_sub_cancel_left, List.take_left]
    have hvalue (k : Nat) : doc.drop (5 + key.length + 1 + k) = value.drop k := by
      have hs : key ++ c :: value = (key ++ [c]) ++ value := by simp
      rw [show 5 + key.length + 1 + k = 5 + (key.length + 1 + k) by omega, hdrop, hs,
        ← List.drop_drop, List.drop_left' (by simp)]
    rw [if_neg (by omega), slice_eq (by omega) (by omega), hcmd, Option.bind_some]
    dsimp only
    split
    · by_cases h4 : value.length < 4
      · rw [if_pos (by omega), if_pos h4]
      · rw [if_neg (by omega), if_neg h4, uint32_from (by omega), Option.bind_some]
        have h0 := hvalue 0
        rw [Nat.add_zero, List.drop_zero] at h0
        rw [h0]
        generalize littleEndian (value.take 4) = n
        by_cases hn : value.length < 4 + n
        · rw [if_pos (by omega), if_pos hn]
        · rw [if_neg (by omega), if_neg hn]
          by_cases hz : n = 0
          · rw [if_pos hz, slice, if_neg (by omega)]
            rfl
          · rw [if_neg hz, slice_eq (by omega) (by omega), List.drop_take, hvalue 4,
              Option.map_some]
            congr 3
            omega
    · rfl

theorem littleEndian_eq_zero {s : Bytes} (h : littleEndian s = 0) :
    s = List.replicate s.length 0 := by
  induction s with
  | nil => rfl
  | cons c s ih =>
    have hc : littleEndian (c :: s) = c.toNat + 256 * littleEndian s := rfl
    rw [hc] at h
    have h0 : c = 0 := UInt8.toNat_inj.mp (by simp; omega)
    rw [List.length_cons, List.replicate_succ, ← ih (by omega), h0]

/-- A document whose first value is a string of length 0, without even the closing zero. -/
def zeroDoc (len key tail : Bytes) : Bytes :=
  len ++ 0x02 :: (key ++ 0 :: (List.replicate 4 0 ++ tail))

theorem element_none_iff {elemType : UInt8} {rest : Bytes} : element elemType rest = none ↔
    elemType = 0x02 ∧ ∃ key tail, (0 : UInt8) ∉ key ∧
      rest = key ++ 0 :: (List.replicate 4 0 ++ tail) := by
  constructor
  · intro h
    have hkey := List.takeWhile_append_dropWhile (p := fun c : UInt8 => decide (c ≠ 0)) (l := rest)
    have hnot : (0 : UInt8) ∉ rest.takeWhile (· ≠ 0) := fun hm => by
      simpa using List.mem_takeWhile_imp hm
    unfold element at h
    split at h
    · cases h
    · rename_i c value hv
      have hc : c = 0 := by
        have hne : rest.dropWhile (· ≠ 0) ≠ [] := hv ▸ List.cons_ne_nil _ _
        have hh := List.head_dropWhile_not (fun c : UInt8 => decide (c ≠ 0)) hne
        simp only [hv, List.head_cons] at hh
        simpa using hh
      subst hc
      dsimp only at h
      split_ifs at h with ht h4 hn hz
      have htake := littleEndian_eq_zero hz
      rw [List.length_take, Nat.min_eq_left (by omega)] at htake
      refine ⟨ht, _, value.drop 4, hnot, ?_⟩
      rw [← htake, List.take_append_drop, ← hv]
      exact hkey.symm
  · rintro ⟨rfl, key, tail, hk, rfl⟩
    have hall : ∀ c ∈ key, decide (c ≠ 0) = true := by
      intro c hc
      apply decide_eq_true
      rintro rfl
      exact hk hc
    have hd : (0 :: (List.replicate 4 0 ++ tail)).dropWhile (fun c : UInt8 => decide (c ≠ 0)) =
        0 :: (List.replicate 4 0 ++ tail) := List.dropWhile_cons_of_neg (by simp)
    have ht : (List.replicate 4 (0 : UInt8) ++ tail).take 4 = List.replicate 4 0 :=
      List.take_left' (by simp)
    have hz : littleEndian (List.replicate 4 0) = 0 := rfl
    have hlen : (List.replicate 4 (0 : UInt8) ++ tail).length = 4 + tail.length := by
      rw [List.length_append, List.length_replicate]
    unfold element
    rw [List.dropWhile_append_of_pos hall, hd]
    dsimp only
    rw [ht, hz, hlen, if_pos rfl, if_neg (by omega), if_neg (by omega), if_pos rfl]

/-- The four bytes of a length, and what follows. -/
theorem exists_header {text : Bytes} (h : 4 < text.length) :
    ∃ header c rest, header.length = 4 ∧ text = header ++ c :: rest := by
  obtain ⟨c, rest, hd⟩ : ∃ c rest, text.drop 4 = c :: rest :=
    List.exists_cons_of_length_pos (by rw [List.length_drop]; omega)
  refine ⟨text.take 4, c, rest, ?_, by rw [← hd, List.take_append_drop]⟩
  rw [List.length_take]
  omega

theorem parseFirst_none_iff : parseFirst doc = none ↔
    ∃ len key tail, len.length = 4 ∧ (0 : UInt8) ∉ key ∧ doc = zeroDoc len key tail := by
  constructor
  · intro h
    have hl : 4 < doc.length := by
      by_contra hle
      rw [parseFirst, if_pos (by omega)] at h
      cases h
    obtain ⟨len, elemType, rest, h4, rfl⟩ := exists_header hl
    rw [parseFirst_eq h4, element_none_iff] at h
    obtain ⟨rfl, key, tail, hk, rfl⟩ := h
    exact ⟨len, key, tail, h4, hk, rfl⟩
  · rintro ⟨len, key, tail, hl, hk, rfl⟩
    rw [zeroDoc, parseFirst_eq hl, element_none_iff]
    exact ⟨rfl, key, tail, hk, rfl⟩

/-- The body of an OP_MSG that holds such a document, with its own length. -/
def ZeroString (body : Bytes) : Prop :=
  ∃ flags len key tail more, flags.length = 4 ∧ len.length = 4 ∧ (0 : UInt8) ∉ key ∧
    littleEndian len = (zeroDoc len key tail).length ∧
    body = flags ++ 0 :: (zeroDoc len key tail ++ more)

theorem parseOPMSG_eq {flags rest : Bytes} (hf : flags.length = 4) (kind : UInt8) :
    parseOPMSG (flags ++ kind :: rest) =
      if kind ≠ 0 ∨ rest.length < 4 ∨ rest.length < littleEndian (rest.take 4) then some ([], [])
      else parseFirst (rest.take (littleEndian (rest.take 4))) := by
  have hlen : (flags ++ kind :: rest).length = 5 + rest.length := by
    rw [List.length_append, List.length_cons]
    omega
  have hkind : (flags ++ kind :: rest)[4]? = some kind := by
    rw [List.getElem?_append_right (by omega), hf]
    rfl
  have hdrop : (flags ++ kind :: rest).drop 5 = rest := by
    rw [List.append_cons]
    exact List.drop_left' (by simp [hf])
  unfold parseOPMSG
  rw [if_neg (by omega), hkind, Option.bind_some, documentAt_eq, hdrop, hlen]
  by_cases hk : kind = 0
  · rw [if_neg (not_not.mpr hk), Option.bind_some]
    by_cases hs : rest.length < 4 ∨ rest.length < littleEndian (rest.take 4)
    · rw [if_pos (by omega), if_pos (.inr hs)]
    · rw [if_neg (by omega), if_neg (by tauto)]
  · rw [if_pos hk, if_pos (.inl hk)]

theorem parseOPMSG_none_iff : parseOPMSG body = none ↔ ZeroString body := by
  constructor
  · intro h
    have hl : 4 < body.length := by
      by_contra hlt
      rw [parseOPMSG, if_pos (by omega)] at h
      cases h
    obtain ⟨flags, kind, rest, hf, rfl⟩ := exists_header hl
    rw [parseOPMSG_eq hf] at h
    split_ifs at h with hs
    simp only [not_or, not_not, not_lt] at hs
    obtain ⟨rfl, h4, hn⟩ := hs
    obtain ⟨len, key, tail, hl4, hk, hdoc⟩ := parseFirst_none_iff.mp h
    refine ⟨flags, len, key, tail, rest.drop (littleEndian (rest.take 4)), hf, hl4, hk, ?_, ?_⟩
    · have hlen := congrArg List.length hdoc
      rw [List.length_take, Nat.min_eq_left hn] at hlen
      have h4' : 4 ≤ (zeroDoc len key tail).length := by
        rw [zeroDoc, List.length_append]
        omega
      have hpre : rest.take 4 = len := by
        have ht := congrArg (List.take 4) hdoc
        rw [List.take_take, Nat.min_eq_left (by omega)] at ht
        rw [ht]
        exact List.take_left' hl4
      rw [hpre] at hlen
      exact hlen
    · rw [← hdoc, List.take_append_drop]
  · rintro ⟨flags, len, key, tail, more, hf, hl, hk, hn, rfl⟩
    have hlen : (zeroDoc len key tail ++ more).take 4 = len := by
      rw [zeroDoc, List.append_assoc]
      exact List.take_left' hl
    have h4 : 4 ≤ (zeroDoc len key tail).length := by
      rw [zeroDoc, List.length_append]
      omega
    rw [parseOPMSG_eq hf, hlen, hn, if_neg, List.take_left, parseFirst_none_iff]
    · exact ⟨len, key, tail, hl, hk, rfl⟩
    · rw [List.length_append]
      simp
      omega

/-! ## Malformed lengths -/

/-- The length of the document that begins here is not there, is below the shortest document's,
or passes the end. -/
def BadDocument (rest : Bytes) : Prop :=
  rest.length < 4 ∨ littleEndian (rest.take 4) < 5 ∨ rest.length < littleEndian (rest.take 4)

/-- The first value is a string whose length is not there, is 0, or passes the end. -/
def BadString (doc : Bytes) : Prop :=
  ∃ len key value, len.length = 4 ∧ (0 : UInt8) ∉ key ∧ doc = len ++ 0x02 :: (key ++ 0 :: value) ∧
    (value.length < 4 ∨ littleEndian (value.take 4) = 0 ∨
      value.length < 4 + littleEndian (value.take 4))

/-- Neither a command nor a collection is read behind a bad length of the document, and no
collection behind a bad length of the string. -/
def OPMSGEmpty (parse : Bytes → Option (Bytes × Bytes)) (body : Bytes) : Prop :=
  ∀ flags rest, flags.length = 4 → body = flags ++ 0 :: rest →
    (BadDocument rest → parse body = some ([], [])) ∧
    (¬ BadDocument rest → BadString (rest.take (littleEndian (rest.take 4))) →
      ∃ cmd, parse body = some (cmd, []))

def OPQueryEmpty (body : Bytes) : Prop :=
  BadDocument (body.drop (cstringEnd body 4 + 1 + 8)) → ∃ doc, parseOPQuery body = some ([], doc)

theorem takeWhile_key {key value : Bytes} (h : (0 : UInt8) ∉ key) :
    (key ++ 0 :: value).takeWhile (· ≠ 0) = key ∧
      (key ++ 0 :: value).dropWhile (· ≠ 0) = 0 :: value := by
  have hall : ∀ c ∈ key, decide (c ≠ 0) = true := by
    intro c hc
    apply decide_eq_true
    rintro rfl
    exact h hc
  rw [List.takeWhile_append_of_pos hall, List.dropWhile_append_of_pos hall]
  simp

theorem opmsgEmpty_of_not_zeroString (h : ¬ ZeroString body) : OPMSGEmpty parseOPMSG body := by
  rintro flags rest hf rfl
  rw [← parseOPMSG_none_iff, parseOPMSG_eq hf] at h
  rw [parseOPMSG_eq hf]
  constructor
  · rintro hb
    split
    · rfl
    · rename_i hs
      have hlen : (rest.take (littleEndian (rest.take 4))).length ≤ 4 := by
        rw [List.length_take]
        unfold BadDocument at hb
        omega
      rw [parseFirst, if_pos hlen]
  · rintro hb ⟨len, key, value, hl, hk, hdoc, hv⟩
    rw [if_neg (by unfold BadDocument at hb; simp; omega)] at h ⊢
    rw [hdoc, parseFirst_eq hl, element, (takeWhile_key hk).1, (takeWhile_key hk).2] at h ⊢
    dsimp only at h ⊢
    rw [if_pos rfl] at h ⊢
    split_ifs at h ⊢ with h4 hn hz
    · exact ⟨key, rfl⟩
    · exact ⟨key, rfl⟩
    · exact absurd rfl h
    · omega

theorem opqueryEmpty (body : Bytes) : OPQueryEmpty body := by
  intro hb
  unfold parseOPQuery
  split
  · exact ⟨none, rfl⟩
  · rw [documentAt_eq, Option.bind_some]
    split
    · exact ⟨none, rfl⟩
    · rename_i bsonDoc hd
      split at hd
      · cases hd
      · rename_i hs
        obtain rfl := Option.some.inj hd
        rw [if_pos]
        · exact ⟨_, rfl⟩
        · unfold BadDocument at hb
          rw [List.length_drop] at hb
          rw [List.length_take, List.length_drop]
          omega

end parsers

/-! ## The law -/

section law

variable {α β σ : Type}

/-- The message that the next turn reads, if it reads one. -/
def nextMessage (client : Bytes) : Option Message :=
  (readFull 16 client).bind fun p =>
    let msgLen := littleEndian (p.1.take 4)
    if msgLen < 16 ∨ msgLen > 48 * 1024 * 1024 then none
    else
      (readFull (msgLen - 16) p.2).map fun q => ⟨littleEndian ((p.1.drop 12).take 4), q.1, q.2⟩

theorem makeBytes_sub {n : Nat} (h : 16 ≤ n) : makeBytes ((n : Int) - 16) = some (n - 16) := by
  rw [makeBytes, if_pos (by omega)]
  congr 1
  omega

/-- The length is checked before it is used. -/
theorem readMessage_eq (client : Bytes) (f : Message → Outcome β) :
    readMessage client f = .read (nextMessage client) f := by
  unfold readMessage nextMessage
  cases readFull 16 client with
  | none => rfl
  | some p =>
    rw [Option.bind_some, Outcome.read]
    dsimp only
    split
    · rfl
    · rename_i h
      rw [makeBytes_sub (by omega), Outcome.checked]
      cases readFull (littleEndian (p.1.take 4) - 16) p.2 <;> rfl

theorem read_panic_iff {o : Option α} {f : α → Outcome β} :
    Outcome.read o f = .panic ↔ ∃ a, o = some a ∧ f a = .panic := by
  cases o with
  | none => simp [Outcome.read]
  | some a => simp [Outcome.read]

theorem checked_panic_iff {o : Option α} {f : α → Outcome β} :
    Outcome.checked o f = .panic ↔ o = none ∨ ∃ a, o = some a ∧ f a = .panic := by
  cases o with
  | none => simp [Outcome.checked]
  | some a => simp [Outcome.checked]

/-- The next message of the server claims to be shorter than its header. -/
def ShortReply (server : Bytes) : Prop :=
  ∃ reply, readFull 16 server = some reply ∧ littleEndian (reply.1.take 4) < 16

theorem forward_panic_iff (client server : Bytes) :
    forward client server = .panic ↔ ShortReply server := by
  unfold forward
  rw [read_panic_iff]
  refine exists_congr fun reply => and_congr_right fun _ => ?_
  rw [checked_panic_iff]
  constructor
  · rintro (h | ⟨n, -, h⟩)
    · by_contra hge
      rw [makeBytes, if_pos (by omega)] at h
      cases h
    · obtain ⟨q, -, h⟩ := read_panic_iff.mp h
      cases h
  · intro h
    left
    rw [makeBytes, if_neg (by omega)]

/-- The next message is an OP_MSG that the parser cannot take. -/
def MeetsZeroString (client : Bytes) : Prop :=
  ∃ m, nextMessage client = some m ∧ m.opCode = opMsgCode ∧ ZeroString m.body

/-- The message is passed on: it is no OP_MSG, or no rule answers it. -/
def Message.Forwarded (m : Message) (handled : Bool) : Prop :=
  m.opCode = opMsgCode → ∃ p, parseOPMSG m.body = some p ∧ ¬ (p.1 ≠ [] ∧ handled = true)

def MeetsShortReply (s : Streams) (handled : Bool) : Prop :=
  ∃ m, nextMessage s.client = some m ∧ m.Forwarded handled ∧ ShortReply s.server

theorem handleConn_panic_iff (s : Streams) (handled : Bool) : handleConn s handled = .panic ↔
    MeetsZeroString s.client ∨ MeetsShortReply s handled := by
  unfold handleConn
  rw [readMessage_eq, read_panic_iff]
  constructor
  · rintro ⟨m, hm, h⟩
    split at h
    · rename_i ho
      obtain hp | ⟨p, hp, h⟩ := checked_panic_iff.mp h
      · exact .inl ⟨m, hm, ho, parseOPMSG_none_iff.mp hp⟩
      · split at h
        · cases h
        · rename_i hn
          exact .inr ⟨m, hm, fun _ => ⟨p, hp, hn⟩, (forward_panic_iff _ _).mp h⟩
    · rename_i ho
      exact .inr ⟨m, hm, fun h => absurd h ho, (forward_panic_iff _ _).mp h⟩
  · rintro (⟨m, hm, ho, hz⟩ | ⟨m, hm, hf, hr⟩)
    · refine ⟨m, hm, ?_⟩
      rw [if_pos ho]
      exact checked_panic_iff.mpr (.inl (parseOPMSG_none_iff.mpr hz))
    · refine ⟨m, hm, ?_⟩
      split
      · rename_i ho
        obtain ⟨p, hp, hn⟩ := hf ho
        refine checked_panic_iff.mpr (.inr ⟨p, hp, ?_⟩)
        rw [if_neg hn]
        exact (forward_panic_iff _ _).mpr hr
      · exact (forward_panic_iff _ _).mpr hr

theorem handleMongoMockConn_panic_iff (client : Bytes) :
    handleMongoMockConn client = .panic ↔ MeetsZeroString client := by
  unfold handleMongoMockConn MeetsZeroString
  rw [readMessage_eq, read_panic_iff]
  refine exists_congr fun m => and_congr_right fun _ => ?_
  -- past the parser the turn goes on
  have hok {γ : Type} (o : Option γ) :
      Outcome.checked o (fun _ => .ok m.rest) = .panic ↔ o = none := by
    rw [checked_panic_iff]
    apply or_iff_left
    rintro ⟨_, _, h⟩
    cases h
  by_cases hq : m.opCode = opQueryCode
  · have hs := parseOPQuery_survives m.body
    rw [if_pos hq, hok]
    refine ⟨fun h => ?_, fun h => ?_⟩
    · rw [h] at hs
      cases hs
    · exact absurd (hq.symm.trans h.1) (by decide)
  · rw [if_neg hq]
    split
    · rename_i hm
      exact ⟨fun h => (by cases h), fun h => absurd h.1 hm⟩
    · rename_i hm
      rw [hok, parseOPMSGCmd, parseOPMSG_none_iff]
      exact (and_iff_right (not_not.mp hm)).symm

theorem turns_panic_iff {turn : σ → α → Outcome σ} {s : σ} :
    (∃ as, turns turn s as = .panic) ↔
      ∃ as t a, turns turn s as = .ok t ∧ turn t a = .panic := by
  constructor
  · rintro ⟨as, h⟩
    induction as generalizing s with
    | nil => cases h
    | cons a as ih =>
      rw [turns] at h
      split at h
      · rename_i hp
        exact ⟨[], s, a, rfl, hp⟩
      · cases h
      · rename_i t ht
        obtain ⟨bs, u, b, hu, hb⟩ := ih h
        refine ⟨a :: bs, u, b, ?_, hb⟩
        rw [turns, ht]
        exact hu
  · rintro ⟨as, t, a, h, hp⟩
    refine ⟨as ++ [a], ?_⟩
    induction as generalizing s with
    | nil =>
      cases h
      rw [List.nil_append, turns, hp]
    | cons b as ih =>
      rw [turns] at h
      rw [List.cons_append, turns]
      split at h
      · cases h
      · cases h
      · rename_i u hu
        exact ih h

/-- The next header states a length below its own, one above the limit, or one that passes the
end of the stream. -/
def BadHeader (tooLong : Nat → Prop) (stream : Bytes) : Prop :=
  ∃ p, readFull 16 stream = some p ∧
    (littleEndian (p.1.take 4) < 16 ∨ tooLong (littleEndian (p.1.take 4)) ∨
      p.2.length + 16 < littleEndian (p.1.take 4))

def clientLimit (n : Nat) : Prop := 48 * 1024 * 1024 < n

/-- The proxy has no limit for the server. -/
def serverLimit (_ : Nat) : Prop := False

theorem nextMessage_bad {client : Bytes} (h : BadHeader clientLimit client) :
    nextMessage client = none := by
  obtain ⟨p, hr, hb⟩ := h
  rw [nextMessage, hr, Option.bind_some]
  dsimp only
  split
  · rfl
  · rename_i hn
    rw [readFull, if_neg (by unfold clientLimit at hb; omega)]
    rfl

theorem forward_bad {client server : Bytes} (h : BadHeader serverLimit server)
    (hs : ¬ ShortReply server) : forward client server = .closed := by
  obtain ⟨p, hr, hb⟩ := h
  have hge : 16 ≤ littleEndian (p.1.take 4) := not_lt.mp fun hlt => hs ⟨p, hr, hlt⟩
  have hn : readFull (littleEndian (p.1.take 4) - 16) p.2 = none := by
    simp only [serverLimit, false_or] at hb
    exact if_neg (by omega)
  rw [forward, hr, Outcome.read, makeBytes_sub hge, Outcome.checked, hn, Outcome.read]

/-- Malformed lengths in a turn of the proxy: a bad header closes the connection, also that of
the answer, and the parser answers empty behind a bad length in the body. -/
def ProxyHandles (s : Streams) (handled : Bool) : Prop :=
  (BadHeader clientLimit s.client → handleConn s handled = .closed) ∧
  ∀ m, nextMessage s.client = some m →
    (m.opCode = opMsgCode → OPMSGEmpty parseOPMSG m.body) ∧
    (m.Forwarded handled → BadHeader serverLimit s.server → handleConn s handled = .closed)

def MockHandles (client : Bytes) : Prop :=
  (BadHeader clientLimit client → handleMongoMockConn client = .closed) ∧
  ∀ m, nextMessage client = some m →
    (m.opCode = opMsgCode → OPMSGEmpty parseOPMSGCmd m.body) ∧
    (m.opCode = opQueryCode → OPQueryEmpty m.body)

theorem proxyHandles_of {s : Streams} {handled : Bool} (hz : ¬ MeetsZeroString s.client)
    (hs : ¬ MeetsShortReply s handled) : ProxyHandles s handled := by
  refine ⟨fun hb => ?_, fun m hm => ⟨fun ho => ?_, fun hf hb => ?_⟩⟩
  · rw [handleConn, readMessage_eq, nextMessage_bad hb, Outcome.read]
  · exact opmsgEmpty_of_not_zeroString fun h => hz ⟨m, hm, ho, h⟩
  · have hc : forward m.rest s.server = .closed :=
      forward_bad hb fun h => hs ⟨m, hm, hf, h⟩
    rw [handleConn, readMessage_eq, hm, Outcome.read]
    split
    · rename_i ho
      obtain ⟨p, hp, hn⟩ := hf ho
      rw [hp, Outcome.checked, if_neg hn, hc]
    · exact hc

theorem mockHandles_of {client : Bytes} (hz : ¬ MeetsZeroString client) : MockHandles client := by
  refine ⟨fun hb => ?_, fun m hm => ⟨fun ho => ?_, fun _ => opqueryEmpty m.body⟩⟩
  · rw [handleMongoMockConn, readMessage_eq, nextMessage_bad hb, Outcome.read]
  · exact opmsgEmpty_of_not_zeroString fun h => hz ⟨m, hm, ho, h⟩

/-- No turn of the proxy's loop panics, whatever the rules say, and each one that it comes to
handles malformed lengths. -/
structure ProxySurvives (s : Streams) : Prop where
  calm : ∀ handled, turns handleConn s handled ≠ .panic
  handles : ∀ as t handled, turns handleConn s as = .ok t → ProxyHandles t handled

def mockTurn (client : Bytes) (_ : Unit) : Outcome Bytes := handleMongoMockConn client

structure MockSurvives (client : Bytes) : Prop where
  calm : ∀ ticks, turns mockTurn client ticks ≠ .panic
  handles : ∀ ticks t, turns mockTurn client ticks = .ok t → MockHandles t

theorem survives_iff {turn : σ → α → Outcome σ} {s : σ} : (∀ as, turns turn s as ≠ .panic) ↔
    ∀ as t a, turns turn s as = .ok t → turn t a ≠ .panic := by
  rw [← not_iff_not]
  simp only [not_forall, not_not, turns_panic_iff]
  exact exists_congr fun _ => exists_congr fun _ => exists_congr fun _ => exists_prop.symm

theorem proxySurvives_iff (s : Streams) : ProxySurvives s ↔
    ∀ as t handled, turns handleConn s as = .ok t →
      ¬ MeetsZeroString t.client ∧ ¬ MeetsShortReply t handled := by
  have hcalm := @survives_iff _ _ handleConn s
  simp only [ne_eq, handleConn_panic_iff, not_or] at hcalm
  constructor
  · intro h
    exact hcalm.mp h.calm
  · intro h
    refine ⟨hcalm.mpr h, fun as t handled ht => ?_⟩
    exact proxyHandles_of (h as t handled ht).1 (h as t handled ht).2

theorem mockSurvives_iff (client : Bytes) : MockSurvives client ↔
    ∀ ticks t, turns mockTurn client ticks = .ok t → ¬ MeetsZeroString t := by
  have hcalm := @survives_iff _ _ mockTurn client
  simp only [ne_eq, mockTurn, handleMongoMockConn_panic_iff] at hcalm
  constructor
  · intro h as t ht
    exact hcalm.mp h.calm as t () ht
  · intro h
    exact ⟨hcalm.mpr fun as t _ ht => h as t ht, fun as t ht => mockHandles_of (h as t ht)⟩

/-- The law of both loops: what they come to decides. -/
theorem parsing_survives_iff (s : Streams) (client : Bytes) :
    ProxySurvives s ∧ MockSurvives client ↔
      (∀ as t handled, turns handleConn s as = .ok t →
        ¬ MeetsZeroString t.client ∧ ¬ MeetsShortReply t handled) ∧
      ∀ ticks t, turns mockTurn client ticks = .ok t → ¬ MeetsZeroString t :=
  and_congr (proxySurvives_iff s) (mockSurvives_iff client)

end law

/-! ## Two crashes -/

/-- A message of 16 bytes with opcode 0. -/
def bareMessage : Bytes := [16, 0, 0, 0] ++ List.replicate 12 0

/-- An OP_MSG with the document `find: ""`, whose string has the length 0. -/
def emptyFind : Bytes :=
  [35, 0, 0, 0] ++ List.replicate 8 0 ++ [221, 7, 0, 0] ++
    ([0, 0, 0, 0] ++ [0] ++ ([14, 0, 0, 0] ++ [2] ++ bytes "find" ++ [0] ++ [0, 0, 0, 0]))

theorem malformed_lengths_crash : ¬ ProxySurvives ⟨bareMessage, List.replicate 16 0⟩ ∧
    ¬ ProxySurvives ⟨emptyFind, []⟩ ∧ ¬ MockSurvives emptyFind :=
  ⟨fun h => h.calm [false] rfl, fun h => h.calm [false] rfl, fun h => h.calm [()] rfl⟩

end faultbox.mongo_parsing
