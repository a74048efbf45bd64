import EdgeLLM.Ports.ContextCacheContent
import EdgeLLM.Ports.ContextCachePlanLayout
import EdgeLLM.Ports.ContextCacheAtomicity
import EdgeLLM.Ports.ContextCacheMtpCheckpoint
import EdgeLLM.Ports.SwaCoverage
import EdgeLLM.Ports.PreTokenizer
import EdgeLLM.Ports.SpecialTokens
import EdgeLLM.Ports.EncodeLossless
import EdgeLLM.Ports.BatchRuns
import EdgeLLM.Ports.GuidedMasking
import EdgeLLM.Ports.DispatchRuns
import EdgeLLM.Ports.LeaseRuns
import EdgeLLM.Ports.StopChunks
import EdgeLLM.Ports.StreamedText
import EdgeLLM.Ports.KVPageTableRuns
import EdgeLLM.Ports.CommandQueueFifo
import EdgeLLM.Ports.CheckpointLookup
import EdgeLLM.Ports.EncoderEmbeddingCache
import EdgeLLM.Ports.MediaKeyFeeding
import EdgeLLM.Ports.JsonScannerExact
import EdgeLLM.Ports.ReasoningAgreement
import EdgeLLM.Ports.Gemma4Runs
import EdgeLLM.Ports.TerminalTokenStripper
import EdgeLLM.Ports.Nvfp4MarlinLoad
import EdgeLLM.Ports.BlackwellMoe
import EdgeLLM.Ports.Int4Dequantized
import EdgeLLM.Ports.RaggedSubsetExact
import EdgeLLM.Ports.VocabReduction
import EdgeLLM.Ports.DartCoverage
import EdgeLLM.Ports.VisualSubsetExact
import EdgeLLM.Ports.VideoBudgetExact
import EdgeLLM.Ports.IdentityScratchSet
import EdgeLLM.Ports.ImageBufferExact
import EdgeLLM.Ports.RowTableExact
import EdgeLLM.Ports.CheckpointPages
import EdgeLLM.Ports.FnvDigest
