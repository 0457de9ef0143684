import TikzPress.Digest
import TikzPress.Settings

/-!
Cache keys: what a fragment is rendered to is found again under the digest of its content and of the
settings that change the result.
-/

namespace TikzPress.CacheKey

def input (content signature : Text) : Bytes := Text.encode (content ++ signature)

def hash (content signature : Text) : Text := Digest.hex (Digest.sha256 (input content signature))

def of (content : Text) (settings : Settings) : Text := hash content settings.signature

def nameStart : Text := "tikzmd-".toList

def shownWidth : Nat := 16

def baseName (key : Text) : Text := nameStart ++ (Text.takeBytes? shownWidth key).getD key

end TikzPress.CacheKey
