import Courier.Calculator.Client
import Courier.Proofs.Serving
/-!
# The metadata of a response fit where those of the request did

A response says no more about a method than the request for it: the name alone if the service offers
the method, and otherwise a text around the name, which is shorter than what stands around it in the
request.  Its metadata therefore fit their size field (`length_segment_known`,
`length_segment_unknown`).
-/

namespace Courier.Calculator

def requestMetadata (method : String) : Metadata :=
  Metadata.withExtra { serviceName, methodName := method } "client" "example"

def unknownMetadata (method : String) : Metadata :=
  Metadata.withError {} ("Unknown method `" ++ method ++ "`")

/-! ## Lengths -/

theorem bytes_append (s t : String) : Text.bytes (s ++ t) = Text.bytes s ++ Text.bytes t := by
  simp [Text.bytes]

theorem length_unknown (method : String) :
    (Text.bytes ("Unknown method `" ++ method ++ "`")).length =
      (Text.bytes method).length + 17 := by
  have hfront : (Text.bytes "Unknown method `").length = 16 := by decide
  have hback : (Text.bytes "`").length = 1 := by decide
  rw [bytes_append, bytes_append, List.length_append, List.length_append, hfront, hback]
  omega

theorem length_pack_unknown {method : String}
    (hfits : (requestMetadata method).pack.length < UInt32.size) :
    (unknownMetadata method).pack.length < UInt32.size := by
  -- More than 28 bytes stand around the name in the request, and 26 at the most in the response.
  have hname := Columnar.length_lt_packText method
  have hrequest :
      (requestMetadata method).pack.length = (Columnar.packText method).length + 28 := by
    have hservice : (Columnar.packText serviceName).length = 11 := by decide
    have hrest : (Columnar.packText "").length + (Columnar.packLengths [1]).length +
        (Columnar.packTexts ["client"]).length + (Columnar.packTexts ["example"]).length = 17 := by
      decide
    change (Columnar.packText serviceName ++ Columnar.packText method ++ Columnar.packText "" ++
      Columnar.packLengths [1] ++ Columnar.packTexts ["client"] ++
      Columnar.packTexts ["example"]).length = _
    simp only [List.length_append]
    omega
  have hshort : (Text.bytes ("Unknown method `" ++ method ++ "`")).length < UInt32.size := by
    rw [length_unknown]
    omega
  have htext := Columnar.length_packText_le hshort
  rw [length_unknown] at htext
  have hresponse : (unknownMetadata method).pack.length =
      (Columnar.packText ("Unknown method `" ++ method ++ "`")).length + 3 := by
    have hrest : (Columnar.packText "").length + (Columnar.packText "").length +
        (Columnar.packLengths [0]).length + (Columnar.packTexts []).length +
        (Columnar.packTexts []).length = 3 := by decide
    change (Columnar.packText "" ++ Columnar.packText "" ++
      Columnar.packText ("Unknown method `" ++ method ++ "`") ++
      Columnar.packLengths [0] ++ Columnar.packTexts [] ++ Columnar.packTexts []).length = _
    simp only [List.length_append]
    omega
  omega

theorem length_print_unknown (method : String) :
    (Json.print Json.compact (unknownMetadata method).toTree).length ≤
      (Json.print Json.compact (requestMetadata method).toTree).length := by
  have hresponse : (unknownMetadata method).toTree = .object [
      ("error", .string ("Unknown method `" ++ method ++ "`")), ("methodName", .string ""),
      ("serviceName", .string "")] := by
    simp [unknownMetadata, Metadata.withError, Metadata.toTree, SortedMap.empty, SortedMap.isEmpty]
  have hrequest : (requestMetadata method).toTree = .object [
      ("extra", .object [("client", .string "example")]), ("methodName", .string method),
      ("serviceName", .string "Calculator")] := rfl
  have hfront : ((Text.bytes "Unknown method `").flatMap Json.escapedByte).length = 16 := by decide
  have hback : ((Text.bytes "`").flatMap Json.escapedByte).length = 1 := by decide
  have herror : ((Text.bytes "error").flatMap Json.escapedByte).length = 5 := by decide
  have hextra : ((Text.bytes "extra").flatMap Json.escapedByte).length = 5 := by decide
  have hclient : ((Text.bytes "client").flatMap Json.escapedByte).length = 6 := by decide
  have hexample : ((Text.bytes "example").flatMap Json.escapedByte).length = 7 := by decide
  have hservice : ((Text.bytes "Calculator").flatMap Json.escapedByte).length = 10 := by decide
  have hempty : ((Text.bytes "").flatMap Json.escapedByte).length = 0 := by decide
  rw [hresponse, hrequest]
  simp only [Json.print, Json.printAt, Json.printMembers_cons, Json.printString,
    Json.printMembers_nil, bytes_append, List.flatMap_append, List.length_append, List.length_cons,
    List.length_nil, if_true, hfront, hback, herror, hextra, hclient, hexample, hservice, hempty]
  omega

/-! ## Segments -/

theorem metadataSegment_json {m : Message} {metadata : Metadata}
    (hcode : m.header.serialization.code = 1) (hmetadata : m.metadata = some metadata) :
    m.metadataSegment = .ok (Json.print Json.compact metadata.toTree) := by
  rw [Message.metadataSegment, Registry.withCodec, Registry.lookup, hcode, hmetadata]
  rfl

theorem metadataSegment_binary {m : Message} {metadata : Metadata}
    (hcode : m.header.serialization.code = 2) (hmetadata : m.metadata = some metadata) :
    m.metadataSegment = .ok metadata.pack := by
  rw [Message.metadataSegment, Registry.withCodec, Registry.lookup, hcode, hmetadata]
  rfl

/-- The error text for a method that is not offered fits if the request for the method did. -/
theorem length_segment_unknown {request response : Message} {method : String}
    {segment segment' : Bytes}
    (hserialization : request.header.serialization.code = 1 ∨
      request.header.serialization.code = 2)
    (hsame : response.header.serialization = request.header.serialization)
    (hrequest : request.metadata = some (requestMetadata method))
    (hresponse : response.metadata = some (unknownMetadata method))
    (hsegment : request.metadataSegment = .ok segment)
    (hsegment' : response.metadataSegment = .ok segment') (hfits : segment.length < UInt32.size) :
    segment'.length < UInt32.size := by
  rcases hserialization with hcode | hcode
  · rw [metadataSegment_json hcode hrequest] at hsegment
    rw [← hsame] at hcode
    rw [metadataSegment_json hcode hresponse] at hsegment'
    cases hsegment
    cases hsegment'
    exact (length_print_unknown method).trans_lt hfits
  · rw [metadataSegment_binary hcode hrequest] at hsegment
    rw [← hsame] at hcode
    rw [metadataSegment_binary hcode hresponse] at hsegment'
    cases hsegment
    cases hsegment'
    exact length_pack_unknown hfits

theorem length_segment_known {response : Message} {op : Operation} {segment : Bytes}
    (hserialization : response.header.serialization.code = 1 ∨
      response.header.serialization.code = 2)
    (hresponse : response.metadata = some { serviceName, methodName := op.name })
    (hsegment : response.metadataSegment = .ok segment) : segment.length < UInt32.size := by
  rcases hserialization with hcode | hcode
  · rw [metadataSegment_json hcode hresponse] at hsegment
    cases hsegment
    cases op <;> decide
  · rw [metadataSegment_binary hcode hresponse] at hsegment
    cases hsegment
    cases op <;> decide

theorem length_segment_refused {response : Message} {payload segment : Bytes} {e : TransportError}
    (he : unpackRequest payload = .error e)
    (hserialization : response.header.serialization.code = 1 ∨
      response.header.serialization.code = 2)
    (hresponse : response.metadata = some (Metadata.withError {} e.message))
    (hsegment : response.metadataSegment = .ok segment) : segment.length < UInt32.size := by
  obtain ⟨fault, rfl⟩ := exists_fault_of_unpackRequest he
  rcases hserialization with hcode | hcode
  · rw [metadataSegment_json hcode hresponse] at hsegment
    cases hsegment
    cases fault <;> decide
  · rw [metadataSegment_binary hcode hresponse] at hsegment
    cases hsegment
    cases fault <;> decide

end Courier.Calculator
