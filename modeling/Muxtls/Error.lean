import Muxtls.Proto.Frame

namespace Muxtls

/-- The errors the connection runtime produces. A panic ends the task it happens in, as an error
does, so it is kept here as one more outcome. -/
inductive Error where
  | protocol (message : String)
  | wire (error : ProtoError)
  | limitExceeded (message : String)
  | invalidLimit (field reason : String)
  | streamIdExhausted
  | connectionClosed
  | streamReset (errorCode : Nat)
  | panicked (message : String)
deriving DecidableEq, Repr

/-- `{:#x}` of a byte. -/
def hexByte (b : UInt8) : String := "0x" ++ String.ofList (Nat.toDigits 16 b.toNat)

def VarIntError.display : VarIntError → String
  | valueTooLarge v => s!"varint value too large: {v}"
  | unexpectedEof => "unexpected end of input while decoding varint"

def ProtoError.display : ProtoError → String
  | varInt error => "varint error: " ++ error.display
  | unexpectedEof => "unexpected end of input"
  | unknownFrameType frameType => "unknown frame type: " ++ hexByte frameType
  | unsupportedFlags frameType flags =>
    "unsupported flags " ++ hexByte flags ++ " for frame type " ++ hexByte frameType
  | invalidUtf8 => "invalid UTF-8 in close reason"
  | trailingBytes remaining => s!"trailing bytes in frame: {remaining}"
  | lengthOverflow length => s!"payload length too large for platform: {length}"

def Error.display : Error → String
  | protocol message => "protocol error: " ++ message
  | wire error => "wire protocol error: " ++ error.display
  | limitExceeded message => "limit exceeded: " ++ message
  | invalidLimit field reason => s!"invalid limit `{field}`: {reason}"
  | streamIdExhausted => "stream identifier space exhausted"
  | connectionClosed => "connection closed"
  | streamReset errorCode => s!"stream reset with code {errorCode}"
  | panicked message => message

end Muxtls
