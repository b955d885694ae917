import KVSSD.AlignedReads
import KVSSD.Attention
import KVSSD.AttentionBlocks
import KVSSD.AttentionError
import KVSSD.AttentionLayout
import KVSSD.AttentionRun
import KVSSD.BatchAttention
import KVSSD.BufferedExact
import KVSSD.BufferedReads
import KVSSD.CodePacking
import KVSSD.CreateFailure
import KVSSD.CudaAttention
import KVSSD.CudaOverflow
import KVSSD.CudaThreads
import KVSSD.DecodeCoverage
import KVSSD.DequantLayout
import KVSSD.Descriptors
import KVSSD.Exact
import KVSSD.Format
import KVSSD.FormatCodec
import KVSSD.GdsHandles
import KVSSD.HostChecks
import KVSSD.KernelInts
import KVSSD.KernelReads
import KVSSD.KernelRows
import KVSSD.KernelScores
import KVSSD.KernelValues
import KVSSD.Kernels
import KVSSD.Lib.Barriers
import KVSSD.Lib.Binary
import KVSSD.Lib.Digits
import KVSSD.Lib.Extended
import KVSSD.Lib.Json
import KVSSD.Lib.JsonRoundTrip
import KVSSD.Lib.JsonText
import KVSSD.Lib.Loops
import KVSSD.Lib.OnlineSoftmax
import KVSSD.Lib.Paths
import KVSSD.Lib.Python
import KVSSD.Lib.Rounding
import KVSSD.Lib.Rows
import KVSSD.Lib.Sha256
import KVSSD.Lib.Softmax
import KVSSD.Lib.SoftmaxLipschitz
import KVSSD.Lib.Streams
import KVSSD.Lib.Struct
import KVSSD.Lib.Tables
import KVSSD.Lib.Tensor
import KVSSD.Lib.TensorRel
import KVSSD.Lib.Transition
import KVSSD.Lib.TwosComplement
import KVSSD.Lib.Zlib
import KVSSD.Loader
import KVSSD.LoaderCompletion
import KVSSD.LoaderDelivery
import KVSSD.LoaderHeap
import KVSSD.LoaderInvariant
import KVSSD.LoaderPipe
import KVSSD.LoaderSlots
import KVSSD.ManifestFile
import KVSSD.MergeTrees
import KVSSD.PackedAttention
import KVSSD.Pipeline
import KVSSD.PipelineAccuracy
import KVSSD.PipelineCuda
import KVSSD.PipelineDecode
import KVSSD.PipelineExact
import KVSSD.PipelineRun
import KVSSD.PipelineStreams
import KVSSD.Quant
import KVSSD.QuantBytes
import KVSSD.QuantError
import KVSSD.QuantLayout
import KVSSD.QuantProjection
import KVSSD.ReadIdentity
import KVSSD.RecordIdentity
import KVSSD.RecordRoundTrip
import KVSSD.RestoredError
import KVSSD.RestoredLayers
import KVSSD.Selectors
import KVSSD.SpecWritable
import KVSSD.Storage
import KVSSD.Store
import KVSSD.StoreBlocks
import KVSSD.StoreFiles
import KVSSD.StoreRoundTrip
import KVSSD.StreamAnswers
import KVSSD.StreamOrder
import KVSSD.StreamRaces
import KVSSD.StreamRuns
import KVSSD.StreamingAttention
import KVSSD.TritonAttention
import KVSSD.TritonOverflow
import KVSSD.Vllm
import KVSSD.VllmAccepts
import KVSSD.VllmCodec
import KVSSD.VllmConfig
import KVSSD.VllmDecode
import KVSSD.VllmFiles
import KVSSD.VllmFinite
import KVSSD.VllmFreshness
import KVSSD.VllmInflight
import KVSSD.VllmIntegrity
import KVSSD.VllmJobs
import KVSSD.VllmLoads
import KVSSD.VllmLookups
import KVSSD.VllmPublishing
import KVSSD.VllmRefusals
import KVSSD.VllmReporting
import KVSSD.VllmRoundTrip
import KVSSD.VllmSlots
import KVSSD.VllmSteps
