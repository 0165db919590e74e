import RavBot.Lib.NumberedPieces
import RavBot.Providers.StreamDecoders

/-!
# Decoders of chat completions

How a chat completion of OpenAI and of Qwen is decoded that was not asked for as a stream, and how the stream
of Qwen is decoded, which is read as a whole.  Where the source throws, a decoder returns `none`.
-/

namespace RavBot.Providers

open RavBot.Core RavBot.Lib

/-! ## OpenAI -/

end RavBot.Providers
