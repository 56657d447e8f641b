import RemoteDesktopTool.Parser

namespace RemoteDesktopTool

theorem text_utf8Encode (text : Text) : ByteArray.mk text.asBytes.toArray = text.utf8Encode :=
  ByteArray.ext List.data_toByteArray.symm

theorem strFromUtf8_asBytes (text : Text) : Parser.strFromUtf8 text.asBytes = some text := by
  rw [Parser.strFromUtf8, text_utf8Encode, List.utf8Decode?_utf8Encode]
  simp

theorem asBytes_injective {a b : Text} (h : a.asBytes = b.asBytes) : a = b := by
  have ha := strFromUtf8_asBytes a
  rw [h, strFromUtf8_asBytes] at ha
  exact (Option.some.inj ha).symm

end RemoteDesktopTool
