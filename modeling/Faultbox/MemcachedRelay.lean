-- The memcached proxy without rules: it reads a command line, the data block of a storage command,
-- writes both to the server and brings the reply back, one line, or for get the lines up to END.
-- The law: each command gets its own reply. Of a get the first value is read by lines, so there a
-- line must not begin with END, nor with VALUE and three words more, and a get must not be answered
-- with an error; and the proxy, which cuts lines at the blanks of Unicode, must read them as meant.
import Faultbox.GoText
import Mathlib.Data.Bool.AllAny

open gopath gotext

namespace faultbox.memcached_relay

/-! ## The proxy -/

def endMark : Bytes := bytes "END"
def valueMark : Bytes := bytes "VALUE"

def commandOf (parts : List Bytes) : Bytes := upperText (parts.headD [])

def isStorageCommand (cmd : Bytes) : Bool :=
  cmd ∈ [bytes "SET", bytes "ADD", bytes "REPLACE", bytes "APPEND", bytes "PREPEND", bytes "CAS"]

def isGetCommand (cmd : Bytes) : Bool := cmd = bytes "GET" || cmd = bytes "GETS"

/-- A block whose length stands in a line, with its line end; `none` while bytes are missing. -/
def readBlock (size : Bytes) (s : Bytes) : Option (Bytes × Bytes) :=
  if (atoi size).1 + 2 < 0 then none else readFull ((atoi size).1 + 2).toNat s

/-- The data block after a VALUE line. -/
def valueData (resp rest : Bytes) : Option (Bytes × Bytes) :=
  if valueMark.isPrefixOf resp then
    match (fields resp)[3]? with
    | none => some ([], rest)
    | some size => readBlock size rest
  else some ([], rest)

/-- The loop over the lines of a get, up to the one that begins with END. -/
def forwardValues : Nat → Bytes → Option (Bytes × Bytes)
  | 0, _ => none
  | fuel + 1, server =>
    match readLine server with
    | (_, none) => none
    | (resp, some rest) =>
      match valueData resp rest with
      | none => none
      | some (data, rest) =>
        if endMark.isPrefixOf resp then some (resp ++ data, rest)
        else (forwardValues fuel rest).map fun r => (resp ++ data ++ r.1, r.2)

/-- What comes back to the client, and what the server sends after it. -/
def forwardReply (isGet : Bool) (server : Bytes) : Option (Bytes × Bytes) :=
  match readLine server with
  | (_, none) => none
  | (resp, some rest) =>
    if isGet = true ∧ endMark.isPrefixOf resp = false then
      (forwardValues (rest.length + 1) rest).map fun r => (resp ++ r.1, r.2)
    else some (resp, rest)

/-- The length of the data block behind a command. -/
def sizeOf (command : Bytes) (parts : List Bytes) : Option Bytes :=
  if isStorageCommand command then parts[4]? else none

def readData (parts : List Bytes) (client : Bytes) : Option (Bytes × Bytes) :=
  match sizeOf (commandOf parts) parts with
  | none => some ([], client)
  | some size => readBlock size client

structure Turn where
  toServer : Bytes
  toClient : Bytes
  client : Bytes
  server : Bytes
deriving DecidableEq

/-- A turn of `handleConn`; `none` where it ends or waits for ever. -/
def handleConn (client server : Bytes) : Option Turn :=
  match readLine client with
  | (_, none) => none
  | (line, some client) =>
    let line := trimEol line
    let parts := fields line
    if parts = [] then some ⟨[], [], client, server⟩
    else
      match readData parts client with
      | none => none
      | some (data, client) =>
        (forwardReply (isGetCommand (commandOf parts)) server).map fun r =>
          ⟨line ++ crlf ++ data, r.1, client, r.2⟩

/-- Turn after turn: what went each way, and what is still to be read. -/
def turns : Nat → Bytes → Bytes → Option (List (Bytes × Bytes) × Bytes × Bytes)
  | 0, client, server => some ([], client, server)
  | n + 1, client, server =>
    (handleConn client server).bind fun t =>
      (turns n t.client t.server).map fun r => ((t.toServer, t.toClient) :: r.1, r.2)

/-! ## Commands and replies -/

/-- The words of a line, as the server reads them, and the command in letters of ASCII. -/
def words (line : Bytes) : List Bytes := (line.splitOn space).filter (· ≠ [])

def nameOf (line : Bytes) : Bytes := ((words line).headD []).map upper

/-- A line with a command on it. -/
def Clean (line : Bytes) : Prop :=
  newline ∉ line ∧ trimEol (line ++ crlf) = line ∧ words line ≠ []

/-- A storage command brings the data of the length it states, another one brings none. -/
def Sized (line : Bytes) (data : Option Bytes) : Prop :=
  match sizeOf (nameOf line) (words line) with
  | none => data = none
  | some size => ∃ d, data = some d ∧ (atoi size).1 = d.length

structure Request where
  line : Bytes
  data : Option Bytes
  clean : Clean line
  sized : Sized line data

def Request.bytes (r : Request) : Bytes := r.line ++ crlf ++ (r.data.elim [] fun d => d ++ crlf)

def Request.isGet (r : Request) : Bool := isGetCommand (nameOf r.line)

/-- The proxy reads the line as it is meant. -/
structure Request.Legible (r : Request) : Prop where
  nonempty : fields r.line ≠ []
  size : sizeOf (commandOf (fields r.line)) (fields r.line) = sizeOf (nameOf r.line) (words r.line)
  get : isGetCommand (commandOf (fields r.line)) = r.isGet

/-- A word of the protocol: no blank and no control character of ASCII. -/
def isWord (w : Bytes) : Bool := w ≠ [] && w.all fun c => 32 < c && c ≠ 127

/-- A stored value in the reply to a get. -/
structure Block where
  key : Bytes
  flags : Bytes
  data : Bytes
  cas : Option Bytes
  words : ([key, flags] ++ cas.toList).all isWord = true
  small : data.length < 2 ^ 63

def Block.parts (b : Block) : List Bytes :=
  [b.key, b.flags, decimal b.data.length] ++ b.cas.toList

def Block.header (b : Block) : Bytes :=
  valueMark ++ spell (b.parts.map fun w => ([space], w))

def Block.bytes (b : Block) : Bytes := b.header ++ crlf ++ (b.data ++ crlf)

inductive Reply where
  | line (text : Bytes)
  | values (blocks : List Block)

def Reply.bytes : Reply → Bytes
  | .line text => text ++ crlf
  | .values blocks => blocks.flatMap Block.bytes ++ (endMark ++ crlf)

/-- The server answers with one line, or a get with values. -/
def Proper (isGet : Bool) : Reply → Prop
  | .line text => newline ∉ text ∧ (isGet = true → endMark.isPrefixOf text = false)
  | .values _ => isGet = true

structure Exchange where
  request : Request
  reply : Reply
  proper : Proper request.isGet reply

/-! ## Reading up to END -/

variable {text s : Bytes} {b : Block}

theorem isPrefixOf_append_false {mark more : Bytes} {c : UInt8} (h : mark.isPrefixOf text = false)
    (hc : c ∉ mark) :
    mark.isPrefixOf (text ++ c :: more) = false := by
  rw [Bool.eq_false_iff, Ne, List.isPrefixOf_iff_prefix] at h ⊢
  intro hp
  by_cases hl : mark.length ≤ text.length
  · exact h (List.prefix_of_prefix_length_le hp (List.prefix_append _ _) hl)
  · -- the mark would go on over the byte after the text
    have hpre : text ++ [c] <+: text ++ c :: more := ⟨more, by simp⟩
    have hlen : (text ++ [c]).length ≤ mark.length := by
      rw [List.length_append, List.length_singleton]
      omega
    exact hc ((List.prefix_of_prefix_length_le hpre hp hlen).subset (by simp))

theorem forwardValues_mono {fuel : Nat} {r : Bytes × Bytes} (h : forwardValues fuel s = some r)
    (k : Nat) : forwardValues (fuel + k) s = some r := by
  induction fuel generalizing s r with
  | zero => cases h
  | succ n ih =>
    rw [Nat.add_right_comm, forwardValues]
    rw [forwardValues] at h
    split at h
    · cases h
    · split at h
      · cases h
      · split at h
        · rename_i he
          rw [if_pos he]
          exact h
        · rename_i he
          rw [if_neg he]
          obtain ⟨r', hr', rfl⟩ := Option.map_eq_some_iff.mp h
          rw [ih hr', Option.map_some]

/-- The loop takes these bytes, whatever follows them. -/
def Reads (s : Bytes) : Prop :=
  ∃ fuel ≤ s.length, ∀ more, forwardValues fuel (s ++ more) = some (s, more)

theorem reads_end : Reads (endMark ++ crlf) := by
  refine ⟨1, by decide, fun more => ?_⟩
  rw [forwardValues, readLine_crlf (by decide)]
  rfl

/-- A line that ends nothing and has no block behind it. -/
def Harmless (line : Bytes) : Prop :=
  endMark.isPrefixOf line = false ∧
    (valueMark.isPrefixOf line = true → (fields line)[3]? = none)

theorem fields_append_lineEnd {tail : Bytes} (ht : ∀ c ∈ tail, IsBlank c) (line : Bytes) :
    fields (line ++ tail) = fields line := by
  have hf := @fields_spell line [] (by simp) tail ht
  simpa [spell] using hf

theorem Harmless.append {line tail : Bytes} (h : Harmless line) (ht : ∀ c ∈ tail, IsBlank c) :
    Harmless (line ++ tail) := by
  cases tail with
  | nil => rwa [List.append_nil]
  | cons c tail =>
    have hmark : ∀ mark : Bytes, (mark.all fun c => decide ¬ IsBlank c) = true → c ∉ mark := by
      intro mark hall hc
      exact of_decide_eq_true (List.all_eq_true.mp hall c hc) (ht c List.mem_cons_self)
    refine ⟨isPrefixOf_append_false h.1 (hmark _ (by decide)), fun hv => ?_⟩
    rw [fields_append_lineEnd ht]
    apply h.2
    by_contra hn
    rw [isPrefixOf_append_false (Bool.eq_false_of_not_eq_true hn) (hmark _ (by decide))] at hv
    cases hv

theorem reads_line (hn : newline ∉ text) (hl : Harmless (text ++ [newline])) (h : Reads s) :
    Reads (text ++ newline :: s) := by
  obtain ⟨fuel, hf, hr⟩ := h
  have hv (rest : Bytes) : valueData (text ++ [newline]) rest = some ([], rest) := by
    unfold valueData
    split
    · rename_i hp
      rw [hl.2 hp]
    · rfl
  refine ⟨fuel + 1, ?_, fun more => ?_⟩
  · rw [List.length_append, List.length_cons]
    omega
  · rw [forwardValues, List.append_assoc, List.cons_append, readLine_append hn]
    dsimp only
    rw [hv]
    dsimp only
    rw [hl.1, if_neg Bool.false_ne_true, hr, Option.map_some]
    simp

theorem isBlank_crlf : ∀ c ∈ crlf, IsBlank c := List.all_iff_forall_prop.mp (by decide)

theorem Block.newline_notMem_header (b : Block) : newline ∉ b.header := by
  rw [Block.header, List.mem_append, spell, List.flatMap_map, List.mem_flatMap]
  rintro (h | ⟨w, hw, h⟩)
  · exact absurd h (by decide)
  · rw [List.mem_append] at h
    obtain h | h := h
    · exact absurd (List.mem_singleton.mp h) (by decide)
    · have hword : w ∈ [b.key, b.flags] ++ b.cas.toList ∨ w = decimal b.data.length := by
        simp only [Block.parts, List.mem_append, List.mem_cons, List.not_mem_nil, or_false] at hw ⊢
        tauto
      rcases hword with hword | rfl
      · have hall := List.all_eq_true.mp b.words w hword
        rw [isWord, Bool.and_eq_true, List.all_eq_true] at hall
        exact absurd (hall.2 newline h) (by decide)
      · exact (isWord_decimal _).notMem_of_blank (by decide) h

/-- The proxy reads the length of the value in its header. -/
def Block.Legible (b : Block) : Prop :=
  (fields (b.header ++ crlf))[3]? = some (decimal b.data.length)

theorem Block.valueData_header (h : b.Legible) (rest : Bytes) :
    valueData (b.header ++ crlf) (b.data ++ crlf ++ rest) = some (b.data ++ crlf, rest) := by
  have hp : valueMark.isPrefixOf (b.header ++ crlf) = true := by
    rw [List.isPrefixOf_iff_prefix, Block.header, List.append_assoc]
    exact List.prefix_append _ _
  have hn : ((b.data.length : Int) + 2).toNat = (b.data ++ crlf).length := by
    rw [List.length_append]
    have hc : crlf.length = 2 := rfl
    omega
  rw [valueData, if_pos hp, h]
  dsimp only
  rw [readBlock, atoi_decimal b.small, if_neg (by omega), hn]
  exact readFull_append rfl rest

theorem reads_block (hb : b.Legible) (h : Reads s) :
    Reads (b.bytes ++ s) := by
  obtain ⟨fuel, hf, hr⟩ := h
  have he : endMark.isPrefixOf (b.header ++ crlf) = false := rfl
  refine ⟨fuel + 1, ?_, fun more => ?_⟩
  · have hc : crlf.length = 2 := rfl
    simp only [Block.bytes, List.length_append]
    omega
  · have hs : b.bytes ++ s ++ more = b.header ++ crlf ++ (b.data ++ crlf ++ (s ++ more)) := by
      simp only [Block.bytes, List.append_assoc]
    rw [hs, forwardValues, readLine_crlf b.newline_notMem_header]
    dsimp only
    rw [Block.valueData_header hb]
    dsimp only
    rw [he, if_neg Bool.false_ne_true, hr, Option.map_some]
    simp only [Block.bytes, List.append_assoc]

/-- No line of the data looks like a line of the protocol. -/
def Block.Plain (b : Block) : Prop := ∀ line ∈ b.data.splitOn newline, Harmless line

theorem reads_lines {lines : List Bytes} (hne : lines ≠ []) (hn : ∀ line ∈ lines, newline ∉ line)
    (hp : ∀ line ∈ lines, Harmless line) (h : Reads s) :
    Reads (List.intercalate [newline] lines ++ crlf ++ s) := by
  induction lines with
  | nil => exact absurd rfl hne
  | cons line lines ih =>
    have hh := hp line List.mem_cons_self
    have hl := hn line List.mem_cons_self
    cases lines with
    | nil =>
      have hs : List.intercalate [newline] [line] ++ crlf ++ s =
          (line ++ [13]) ++ newline :: s := by simp [crlf, newline]
      rw [hs]
      refine reads_line ?_ ?_ h
      · simpa using ⟨hl, by decide⟩
      · rw [List.append_assoc]
        exact hh.append isBlank_crlf
    | cons next lines =>
      have hs : List.intercalate [newline] (line :: next :: lines) ++ crlf ++ s =
          line ++ newline :: (List.intercalate [newline] (next :: lines) ++ crlf ++ s) := by
        rw [List.intercalate_cons_cons]
        simp
      rw [hs]
      refine reads_line hl (hh.append (List.all_iff_forall_prop.mp (by decide))) ?_
      exact ih (List.cons_ne_nil _ _) (fun l hm => hn l (List.mem_cons_of_mem _ hm))
        fun l hm => hp l (List.mem_cons_of_mem _ hm)

theorem reads_data (hb : b.Plain) (h : Reads s) :
    Reads (b.data ++ crlf ++ s) := by
  have hr := reads_lines (List.splitOn_ne_nil _ _) (fun _ hm => sep_notMem_of_mem_splitOn hm) hb h
  rwa [List.intercalate_splitOn] at hr

theorem reads_blocks {blocks : List Block} (hl : ∀ b ∈ blocks, b.Legible) :
    Reads (blocks.flatMap Block.bytes ++ (endMark ++ crlf)) := by
  induction blocks with
  | nil => exact reads_end
  | cons b blocks ih =>
    rw [List.flatMap_cons, List.append_assoc]
    exact reads_block (hl b List.mem_cons_self) (ih fun b' hb => hl b' (List.mem_cons_of_mem _ hb))

/-! ## The law -/

theorem forwardReply_line (hn : newline ∉ text) (more : Bytes) :
    forwardReply false (text ++ crlf ++ more) = some (text ++ crlf, more) := by
  rw [forwardReply, readLine_crlf hn]
  dsimp only
  rw [if_neg (by simp)]

theorem forwardReply_values {blocks : List Block} (hp : ∀ b ∈ blocks.head?, b.Plain)
    (hl : ∀ b ∈ blocks.tail, b.Legible) (more : Bytes) :
    forwardReply true ((Reply.values blocks).bytes ++ more) =
      some ((Reply.values blocks).bytes, more) := by
  cases blocks with
  | nil =>
    rw [forwardReply, Reply.bytes, List.flatMap_nil, List.nil_append, readLine_crlf (by decide)]
    rfl
  | cons b blocks =>
    obtain ⟨fuel, hf, hr⟩ := reads_data (hp b rfl) (reads_blocks hl)
    rw [List.tail_cons] at hf hr
    have he : endMark.isPrefixOf (b.header ++ crlf) = false := rfl
    have hs : (Reply.values (b :: blocks)).bytes ++ more = b.header ++ crlf ++
        (b.data ++ crlf ++ (blocks.flatMap Block.bytes ++ (endMark ++ crlf)) ++ more) := by
      simp only [Reply.bytes, Block.bytes, List.flatMap_cons, List.append_assoc]
    rw [hs, forwardReply, readLine_crlf b.newline_notMem_header]
    dsimp only
    rw [if_pos ⟨rfl, he⟩]
    have hle : fuel ≤ (b.data ++ crlf ++ (blocks.flatMap Block.bytes ++ (endMark ++ crlf)) ++
        more).length + 1 := by
      rw [List.length_append]
      omega
    obtain ⟨k, hk⟩ := Nat.exists_eq_add_of_le hle
    rw [hk, forwardValues_mono (hr more) k, Option.map_some]
    simp only [Reply.bytes, Block.bytes, List.flatMap_cons, List.append_assoc]

theorem Request.readData_eq {r : Request} (h : r.Legible) (client : Bytes) :
    readData (fields r.line) ((r.data.elim [] fun d => d ++ crlf) ++ client) =
      some (r.data.elim [] fun d => d ++ crlf, client) := by
  have hs := r.sized
  unfold Sized at hs
  unfold readData
  rw [h.size]
  split at hs
  · rw [hs]
    rfl
  · obtain ⟨d, hd, hlen⟩ := hs
    have hn : ((d.length : Int) + 2).toNat = (d ++ crlf).length := by
      rw [List.length_append]
      have hc : crlf.length = 2 := rfl
      omega
    rw [hd, readBlock, hlen, if_neg (by omega), hn]
    exact readFull_append rfl client

/-- The command is read as meant, and a get is answered with values, the first of which has only
lines of its own, while the lengths of the others are read as meant. -/
structure Exchange.Tame (e : Exchange) : Prop where
  legible : e.request.Legible
  values : e.request.isGet = true → ∃ blocks, e.reply = .values blocks ∧
    (∀ b ∈ blocks.head?, b.Plain) ∧ ∀ b ∈ blocks.tail, b.Legible

theorem Exchange.forwardReply_eq {e : Exchange} (h : e.Tame) (server : Bytes) :
    forwardReply e.request.isGet (e.reply.bytes ++ server) = some (e.reply.bytes, server) := by
  cases hg : e.request.isGet with
  | true =>
    obtain ⟨blocks, hr, hp, hl⟩ := h.values hg
    rw [hr]
    exact forwardReply_values hp hl server
  | false =>
    have hprop := e.proper
    cases hr : e.reply with
    | line text =>
      rw [hr] at hprop
      exact forwardReply_line hprop.1 server
    | values blocks =>
      rw [hr] at hprop
      exact absurd (hg.symm.trans hprop) (by decide)

theorem Exchange.handleConn_eq {e : Exchange} (h : e.Tame) (client server : Bytes) :
    handleConn (e.request.bytes ++ client) (e.reply.bytes ++ server) =
      some ⟨e.request.bytes, e.reply.bytes, client, server⟩ := by
  obtain ⟨hn, ht, -⟩ := e.request.clean
  have hb : e.request.bytes ++ client = e.request.line ++ crlf ++
      ((e.request.data.elim [] fun d => d ++ crlf) ++ client) := by
    simp only [Request.bytes, List.append_assoc]
  rw [hb, handleConn, readLine_crlf hn]
  dsimp only
  rw [ht, if_neg h.legible.nonempty, Request.readData_eq h.legible]
  dsimp only
  rw [h.legible.get, e.forwardReply_eq h server]
  rfl

/-- The law of the replies: after any commands each has had its own reply, and nothing of what
the server sends later is read. -/
theorem replies_stay_aligned (es : List Exchange) (h : ∀ e ∈ es, e.Tame) (client server : Bytes) :
    turns es.length (es.flatMap (·.request.bytes) ++ client)
      (es.flatMap (·.reply.bytes) ++ server) =
      some (es.map fun e => (e.request.bytes, e.reply.bytes), client, server) := by
  induction es with
  | nil => rfl
  | cons e es ih =>
    rw [List.length_cons, turns, List.flatMap_cons, List.flatMap_cons, List.append_assoc,
      List.append_assoc, e.handleConn_eq (h e List.mem_cons_self), Option.bind_some,
      ih fun e' he => h e' (List.mem_cons_of_mem _ he)]
    rfl

/-! ## Stored values -/

theorem storedWords :
    ([bytes "a", bytes "0"] ++ (none : Option Bytes).toList).all isWord = true := by
  decide

theorem helloLength : (bytes "hello").length < 2 ^ 63 := by decide

theorem endLength : (bytes "END").length < 2 ^ 63 := by decide

def hello : Block := ⟨bytes "a", bytes "0", bytes "hello", none, storedWords, helloLength⟩

/-- A value that is stored like any other. -/
def storedEnd : Block := ⟨bytes "a", bytes "0", bytes "END", none, storedWords, endLength⟩

theorem getClean : Clean (bytes "get a") := by
  unfold Clean
  decide

theorem getSized : Sized (bytes "get a") none := rfl

def getA : Request := ⟨bytes "get a", none, getClean, getSized⟩

theorem getsValues (blocks : List Block) : Proper getA.isGet (.values blocks) := rfl

def getHello : Exchange := ⟨getA, .values [hello, storedEnd], getsValues _⟩

theorem getHello_aligned : (∀ e ∈ [getHello], e.Tame) ∧
    turns 1 getHello.request.bytes getHello.reply.bytes =
      some ([(getHello.request.bytes, getHello.reply.bytes)], [], []) := by
  have h : ∀ e ∈ [getHello], e.Tame := by
    intro e he
    obtain rfl := List.mem_singleton.mp he
    refine ⟨⟨by decide, by decide, by decide⟩, fun _ => ⟨_, rfl, fun b hb => ?_, fun b hb => ?_⟩⟩
    · obtain rfl := Option.some.inj hb
      unfold Block.Plain Harmless
      decide
    · obtain rfl := List.mem_singleton.mp hb
      unfold Block.Legible
      decide
  have ht := replies_stay_aligned [getHello] h [] []
  simp only [List.flatMap_singleton, List.append_nil] at ht
  exact ⟨h, ht⟩

def getEnd : Exchange := ⟨getA, .values [storedEnd], getsValues _⟩

def serverError : Reply := .line (bytes "SERVER_ERROR out of memory")

/-- The proxy takes the value for the end of the reply, and waits for an END that an error does
not have. -/
theorem end_in_value_shifts : (∃ t, handleConn getEnd.request.bytes getEnd.reply.bytes = some t ∧
    t.server = bytes "END\r\n") ∧ Proper getA.isGet serverError ∧
    handleConn getA.bytes serverError.bytes = none :=
  ⟨⟨_, rfl, by decide⟩, ⟨by decide, fun _ => by decide⟩, by decide⟩

end faultbox.memcached_relay
