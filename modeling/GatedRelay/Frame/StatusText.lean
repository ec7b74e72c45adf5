import GatedRelay.Frame.Message

/-!
# Status texts

A status text has a severity and a text field of 50 bytes.  Writing cuts the text at the field's width, which may fall
inside a character; reading stops at the first zero byte and shows U+FFFD for a character that was cut.
-/

set_option autoImplicit false

namespace GatedRelay

namespace StatusText

def critical : UInt8 := 2

def fieldWidth : Nat := 50

/-- The field is followed by three bytes that number the parts of longer texts, which are zero. -/
def message (sysid compid severity : UInt8) (text : String) : Message where
  msgId := MessageId.statusText
  seq := 0
  sysid := sysid
  compid := compid
  payload := severity :: (Bytes.fit fieldWidth (Utf8.encode text) ++ [0, 0, 0])

theorem length_payload (sysid compid severity : UInt8) (text : String) :
    (message sysid compid severity text).payload.length = 54 := by
  simp [message, fieldWidth]

def frame (sysid compid severity : UInt8) (text : String) : Frame :=
  (message sysid compid severity text).frame 83 (by rw [length_payload]; decide)
    (by simp [message, MessageId.statusText]) (by rfl)

theorem encode_message (sysid compid severity : UInt8) (text : String) :
    (message sysid compid severity text).encode none = .ok (frame sysid compid severity text) := by
  have hlength : ¬ 255 < (message sysid compid severity text).payload.length := by rw [length_payload]; decide
  have hid : ¬ 0x1000000 ≤ (message sysid compid severity text).msgId := by simp [message, MessageId.statusText]
  rw [Message.encode, dif_neg hlength, dif_neg hid]
  rfl

def text? (f : Frame) : Option String :=
  if f.msgId = MessageId.statusText then
    some (Utf8.decodeReplacing ((Bytes.field f.payload 1 fieldWidth).takeWhile (· ≠ 0)))
  else none

end StatusText

end GatedRelay
