import Ndfex.Protocol.OeWire

/-!
# The order-entry responses, byte by byte

The packed structs that the server writes to a client: a header, and the fields of the response behind
it. The text of an error is an array of 32 characters that `strncpy` fills up with zeros.

## Main definitions

* `ResponseType`, `ResponseType.size`: the responses and the sizes of their structs
* `ResponseHeader.read`, `ResponseBody.read`: the structs at the beginning of memory
* `Response.WellFormed`, `Response.encode`: a response that says what it is, and its bytes

## Main results

* `Response.header_of_starts`, `ResponseBody.read_encode`: a response is read as it was written
-/

namespace Ndfex

open Wire

/-- The widths of the fields of `oe_response_header`. -/
def oeResponseHeaderLayout : List ℕ := [2, 1, 1, 4, 4, 4]

/-- `sizeof(oe_response_header)`. -/
def oeResponseHeaderSize : ℕ := oeResponseHeaderLayout.sum

namespace ResponseHeader

/-- The fields of a header. -/
def fields (h : ResponseHeader) : List ℕ :=
  [h.length.toNat, h.msgType.toNat, h.version.toNat, h.seqNum.toNat, h.lastSeqNum.toNat,
    h.clientId.toNat]

/-- A header that holds some fields. -/
def ofFields : List ℕ → ResponseHeader
  | [length, msgType, version, seqNum, lastSeqNum, clientId] =>
    ⟨UInt16.ofNat length, UInt8.ofNat msgType, UInt8.ofNat version, UInt32.ofNat seqNum,
      UInt32.ofNat lastSeqNum, UInt32.ofNat clientId⟩
  | _ => ⟨0, 0, 0, 0, 0, 0⟩

/-- The header at the beginning of memory. -/
def read (m : ℕ → UInt8) : ResponseHeader := ofFields (unpack m 0 oeResponseHeaderLayout)

theorem ofFields_fields (h : ResponseHeader) : ofFields h.fields = h := by
  obtain ⟨length, msgType, version, seqNum, lastSeqNum, clientId⟩ := h
  simp [ofFields, fields]

theorem fits (h : ResponseHeader) : Fits oeResponseHeaderLayout h.fields :=
  ⟨h.length.toNat_lt, h.msgType.toNat_lt, h.version.toNat_lt, h.seqNum.toNat_lt,
    h.lastSeqNum.toNat_lt, h.clientId.toNat_lt, trivial⟩

/-- The header is in the first bytes, whatever follows them. -/
theorem read_congr {m m' : ℕ → UInt8} (h : ∀ i < oeResponseHeaderSize, m i = m' i) :
    read m = read m' := by
  have hsame : unpack m 0 oeResponseHeaderLayout = unpack m' 0 oeResponseHeaderLayout := by
    refine unpack_congr fun i hi => ?_
    rw [Nat.zero_add]
    exact h i hi
  rw [read, hsame, read]

end ResponseHeader

/-- The message types of responses. -/
inductive ResponseType
  | loginResponse
  | ack
  | reject
  | fill
  | close
  | error
deriving DecidableEq, Repr

namespace ResponseType

/-- The message type of a response. -/
def msgType : ResponseType → MsgType
  | loginResponse => .loginResponse
  | ack => .ack
  | reject => .reject
  | fill => .fill
  | close => .close
  | error => .error

/-- The response of a message type's byte. -/
def ofByte (b : UInt8) : Option ResponseType :=
  [loginResponse, ack, reject, fill, close, error].find? fun t => t.msgType.byte = b

/-- The widths of the fields of a response behind its header; the text of an error is an array of 32
bytes. -/
def layout : ResponseType → List ℕ
  | loginResponse => [8, 1]
  | ack => [8, 8, 4, 4]
  | reject => [8, 1]
  | fill => [8, 4, 4, 1]
  | close => [8]
  | error => 1 :: 2 :: List.replicate 32 1

/-- The size of a response struct. -/
def size (t : ResponseType) : ℕ := oeResponseHeaderSize + t.layout.sum

theorem ofByte_byte (t : ResponseType) : ofByte t.msgType.byte = some t := by
  cases t <;> rfl

theorem headerSize_le_size (t : ResponseType) : oeResponseHeaderSize ≤ t.size := Nat.le_add_right _ _

end ResponseType

/-- The bytes of a text in an array of 32, as `strncpy` copies it. -/
def errorBytes (text : String) : List UInt8 :=
  let bytes := text.toList.map fun c => UInt8.ofNat c.toNat
  (bytes ++ List.replicate 32 0).take 32

namespace ResponseBody

/-- The type of a response. -/
def type : ResponseBody → ResponseType
  | .loginResponse .. => .loginResponse
  | .ack .. => .ack
  | .reject .. => .reject
  | .fill .. => .fill
  | .closed _ => .close
  | .error .. => .error

/-- The fields of a response behind its header. -/
def fields : ResponseBody → List ℕ
  | .loginResponse sessionId status => [sessionId.toNat, status.toNat]
  | .ack orderId exchOrderId quantity price =>
    [orderId.toNat, exchOrderId.toNat, quantity.toNat, price.toUInt32.toNat]
  | .reject orderId rejectReason => [orderId.toNat, rejectReason.toNat]
  | .fill orderId quantity price flags =>
    [orderId.toNat, quantity.toNat, price.toUInt32.toNat, flags.toNat]
  | .closed orderId => [orderId.toNat]
  | .error errorCode errorMessage =>
    errorCode.toNat :: (UInt16.ofNat errorMessage.length).toNat ::
      (errorBytes errorMessage).map UInt8.toNat

/-- The response of a type with some fields. -/
def ofFields (t : ResponseType) (fields : List ℕ) : ResponseBody :=
  let nth i := fields.getD i 0
  match t with
  | .loginResponse => .loginResponse (UInt64.ofNat (nth 0)) (UInt8.ofNat (nth 1))
  | .ack =>
    .ack (UInt64.ofNat (nth 0)) (UInt64.ofNat (nth 1)) (UInt32.ofNat (nth 2))
      (MdBody.priceOf (nth 3))
  | .reject => .reject (UInt64.ofNat (nth 0)) (UInt8.ofNat (nth 1))
  | .fill =>
    .fill (UInt64.ofNat (nth 0)) (UInt32.ofNat (nth 1)) (MdBody.priceOf (nth 2))
      (UInt8.ofNat (nth 3))
  | .close => .closed (UInt64.ofNat (nth 0))
  | .error =>
    .error (UInt8.ofNat (nth 0))
      (String.ofList (((fields.drop 2).takeWhile (· ≠ 0)).map Char.ofNat))

/-- The struct of a type at the beginning of memory. -/
def read (m : ℕ → UInt8) (t : ResponseType) : ResponseBody :=
  ofFields t (unpack m oeResponseHeaderSize t.layout)

/-- The text of an error is one of ASCII characters that its array holds with a zero behind it. -/
def WellFormed : ResponseBody → Prop
  | .error _ errorMessage =>
    errorMessage.length < 32 ∧ ∀ c ∈ errorMessage.toList, 0 < c.toNat ∧ c.toNat < 128
  | _ => True

instance : DecidablePred WellFormed
  | .loginResponse .. | .ack .. | .reject .. | .fill .. | .closed _ =>
    inferInstanceAs (Decidable True)
  | .error _ errorMessage =>
    -- it looks at the characters of the text, not at all characters
    have := List.decidableBAll (fun c : Char => 0 < c.toNat ∧ c.toNat < 128) errorMessage.toList
    @instDecidableAnd (errorMessage.length < 32) _ inferInstance this

variable {body : ResponseBody}

theorem msgType_type (body : ResponseBody) : body.type.msgType = body.msgType := by
  cases body <;> rfl

theorem toNat_length (body : ResponseBody) : body.length.toNat = body.type.size := by
  cases body <;> rfl

theorem length_errorBytes (text : String) : (errorBytes text).length = 32 := by
  simp [errorBytes]

/-- **The fields hold the response.** -/
theorem ofFields_fields (hbody : body.WellFormed) : ofFields body.type body.fields = body := by
  cases body with
  | error errorCode errorMessage =>
    obtain ⟨hlength, hascii⟩ := hbody
    have hbyte : ∀ c ∈ errorMessage.toList, (UInt8.ofNat c.toNat).toNat = c.toNat := by
      intro c hc
      have hlt := (hascii c hc).2
      exact UInt8.toNat_ofNat_of_lt' (Nat.lt_trans hlt (by decide))
    have hnumbers : (errorBytes errorMessage).map UInt8.toNat =
        errorMessage.toList.map Char.toNat ++ List.replicate (32 - errorMessage.length) 0 := by
      have hlist : errorMessage.toList.length = errorMessage.length := String.length_toList
      rw [errorBytes, List.take_append, List.map_append, List.length_map, hlist,
        List.take_of_length_le (by simp [hlist]; omega), List.map_map, List.take_replicate,
        List.map_replicate, Nat.min_eq_left (by omega)]
      congr 1
      exact List.map_congr_left hbyte
    have hstop : (List.replicate (32 - errorMessage.length) 0).takeWhile
        (fun n : ℕ => decide (n ≠ 0)) = [] := by
      cases hn : 32 - errorMessage.length with
      | zero => rfl
      | succ n => rfl
    have htext : (((errorBytes errorMessage).map UInt8.toNat).takeWhile (· ≠ 0)).map Char.ofNat =
        errorMessage.toList := by
      rw [hnumbers, List.takeWhile_append_of_pos, hstop, List.append_nil, List.map_map]
      · have hround : Char.ofNat ∘ Char.toNat = id := by
          funext c
          exact Char.ofNat_toNat c
        rw [hround, List.map_id]
      · intro n hn
        obtain ⟨c, hc, rfl⟩ := List.mem_map.mp hn
        have hpos := (hascii c hc).1
        exact decide_eq_true (by omega)
    simp only [type, fields, ofFields, List.getD_cons_zero, List.drop_succ_cons, List.drop_zero,
      UInt8.ofNat_toNat, htext, String.ofList_toList]
  | loginResponse => simp [type, fields, ofFields]
  | ack => simp [type, fields, ofFields, MdBody.priceOf_toUInt32]
  | reject => simp [type, fields, ofFields]
  | fill => simp [type, fields, ofFields, MdBody.priceOf_toUInt32]
  | closed => simp [type, fields, ofFields]

theorem fits (body : ResponseBody) : Fits body.type.layout body.fields := by
  cases body with
  | loginResponse sessionId status => exact ⟨sessionId.toNat_lt, status.toNat_lt, trivial⟩
  | ack orderId exchOrderId quantity price =>
    exact ⟨orderId.toNat_lt, exchOrderId.toNat_lt, quantity.toNat_lt, price.toUInt32.toNat_lt,
      trivial⟩
  | reject orderId rejectReason => exact ⟨orderId.toNat_lt, rejectReason.toNat_lt, trivial⟩
  | fill orderId quantity price flags =>
    exact ⟨orderId.toNat_lt, quantity.toNat_lt, price.toUInt32.toNat_lt, flags.toNat_lt, trivial⟩
  | closed orderId => exact ⟨orderId.toNat_lt, trivial⟩
  | error errorCode errorMessage =>
    have htext := Request.fits_bytes (errorBytes errorMessage)
    rw [length_errorBytes] at htext
    exact ⟨errorCode.toNat_lt, (UInt16.ofNat errorMessage.length).toNat_lt, htext⟩

end ResponseBody

namespace Response

/-- The bytes of a response. -/
def encode (r : Response) : List UInt8 :=
  pack oeResponseHeaderLayout r.header.fields ++ pack r.body.type.layout r.body.fields

/-- The header says what the response is, and how long. -/
structure WellFormed (r : Response) : Prop where
  length : r.header.length = r.body.length
  msgType : r.header.msgType = r.body.msgType.byte
  body : r.body.WellFormed

instance : DecidablePred WellFormed := fun r =>
  decidable_of_iff (r.header.length = r.body.length ∧ r.header.msgType = r.body.msgType.byte ∧
    r.body.WellFormed) ⟨fun h => ⟨h.1, h.2.1, h.2.2⟩, fun h => ⟨h.1, h.2, h.3⟩⟩

variable {r : Response}

theorem length_encode (r : Response) : r.encode.length = r.body.type.size := by
  rw [encode, List.length_append, length_pack r.header.fits, length_pack r.body.fits]
  rfl

/-- The header of a response is read as it was written, once its bytes are there. -/
theorem header_of_starts {m : ℕ → UInt8}
    (hm : Starts m 0 (pack oeResponseHeaderLayout r.header.fields)) :
    ResponseHeader.read m = r.header := by
  rw [ResponseHeader.read, unpack_of_starts hm r.header.fits, ResponseHeader.ofFields_fields]

/-- **A response is read as it was written.** -/
theorem read_encode {m : ℕ → UInt8} (hr : r.body.WellFormed) (hm : Starts m 0 r.encode) :
    ResponseHeader.read m = r.header ∧ ResponseBody.read m r.body.type = r.body := by
  rw [encode, starts_append, length_pack r.header.fits] at hm
  refine ⟨header_of_starts hm.1, ?_⟩
  have hfields : unpack m oeResponseHeaderSize r.body.type.layout = r.body.fields := by
    refine unpack_of_starts ?_ r.body.fits
    rw [oeResponseHeaderSize, ← Nat.zero_add oeResponseHeaderLayout.sum]
    exact hm.2
  rw [ResponseBody.read, hfields, ResponseBody.ofFields_fields hr]

end Response

end Ndfex
