import RemoteDesktopTool.Masking
import RemoteDesktopTool.Strings
import Mathlib.Data.List.DropRight
import Mathlib.Data.List.Nodup

namespace RemoteDesktopTool

def redacted : Text := "<redacted>".toList

def sensitiveKeys : List Text :=
  ["password", "passwd", "passphrase", "pass", "secret", "token", "apikey", "api_key",
    "authorization", "auth", "credential", "credentials", "private_key", "privatekey", "otp",
    "pin"].map String.toList

def isSensitive (key : Text) : Bool :=
  sensitiveKeys.any fun candidate =>
    key.eqIgnoreAsciiCase candidate || candidate.isSuffixOf key

def isKeyChar (c : Char) : Bool := c.isAlphanum || c = '_' || c = '-'

/-- Where the value of a pair ends: at the end of the line after `: `, at a delimiter
after `=`. -/
def endsValue (headerStyle : Bool) (c : Char) : Bool :=
  if headerStyle then c = '\n' else isWhitespace c || c = ',' || c = ';'

section

-- A token is a character, possibly together with a note on where it comes from.
universe u

variable {τ : Type u} (ch : τ → Char) (mark : List τ)

def separatorLen (rest : List τ) : Nat :=
  match rest.map ch with
  | '=' :: _ => 1
  | ':' :: ' ' :: _ => 2
  | _ => 0

def keyBefore (seen : List τ) : List τ := seen.rtakeWhile fun c => isKeyChar (ch c)

def valueAt (headerStyle : Bool) (rest : List τ) : List τ :=
  rest.takeWhile fun c => !endsValue headerStyle (ch c)

/-- The loop of `scrub_sensitive_pairs`: `seen` is what stands before the index and
`rest` what stands from it on. -/
def scrubLoop (seen rest output : List τ) : List τ :=
  match rest with
  | [] => output
  | t :: next =>
    let separator := separatorLen ch (t :: next)
    if separator = 0 then scrubLoop (seen ++ [t]) next (output ++ [t])
    else
      let key := keyBefore ch seen
      let output := output.take (output.length - key.length) ++ key ++ (t :: next).take separator
      let seen := seen ++ (t :: next).take separator
      let rest := (t :: next).drop separator
      let value := valueAt ch (separator = 2) rest
      let output :=
        if isSensitive (key.map ch) && !value.isEmpty then output ++ mark else output ++ value
      scrubLoop (seen ++ value) (rest.drop value.length) output
termination_by rest.length
decreasing_by
  all_goals
    simp only [List.length_drop, List.length_cons]
    omega

def scrubSensitivePairs (text : List τ) : List τ := scrubLoop ch mark [] text []

def redactSecret (output : List τ) (secret : Text) : List τ :=
  if secret <:+: output.map ch then Masking.replaceAll ch mark secret output else output

end

/-- The literal values that must not appear in output; short ones are not registered. -/
structure Redactor where
  secrets : List Text
  byteLen_ge : ∀ secret ∈ secrets, 4 ≤ secret.byteLen
  nodup : secrets.Nodup

namespace Redactor

def new : Redactor := ⟨[], by simp, List.nodup_nil⟩

def withSecret (r : Redactor) (secret : Text) : Redactor :=
  if h : 4 ≤ secret.byteLen ∧ secret ∉ r.secrets then
    { secrets := r.secrets ++ [secret]
      byteLen_ge := by
        intro s hs
        rcases List.mem_append.mp hs with hs | hs
        · exact r.byteLen_ge s hs
        · rw [List.mem_singleton.mp hs]
          exact h.1
      nodup := List.nodup_append_comm.mp (List.nodup_cons.mpr ⟨h.2, r.nodup⟩) }
  else r

def redactTokens {τ : Type} (ch : τ → Char) (mark : List τ) (r : Redactor) (text : List τ) :
    List τ :=
  scrubSensitivePairs ch mark (r.secrets.foldl (redactSecret ch mark) text)

def redact (r : Redactor) (text : Text) : Text := r.redactTokens id redacted text

example : new.redact "password=hunter2 user=root".toList =
    "password=<redacted> user=root".toList := by
  decide +kernel

end Redactor

end RemoteDesktopTool
